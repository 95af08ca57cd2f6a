import MarkupForest.Json.Numeral

/-!
# Outlines of JSON text

What can be made out of a text read as JSON, up to its first fault. An outline has the shape of a
value as far as the text has one, and marks the place where the text ends too soon or breaks the
grammar. Readers of particular types go through an outline from left to right, so of several
problems they meet the first one in the text.
-/

namespace MarkupForest.Json

/-- Why a text is not JSON. -/
inductive Fault where
  /-- The text ends where more is due. -/
  | cutShort
  /-- A character stands where the grammar has no place for it. -/
  | malformed
deriving DecidableEq, Repr

/-- How the members of an object end. -/
inductive Ending where
  /-- With a closing brace. -/
  | closed
  /-- With a fault where a comma or the closing brace is due. -/
  | stray (fault : Fault)
  /-- With a fault where a member's name is due, after a comma or right at the start. A name that is
  kept and one that is only passed over can fail for different reasons. -/
  | noName (afterComma : Bool) (kept passed : Fault)

/-- The outline of a value. -/
inductive Outline where
  /-- The null value. -/
  | null
  /-- A truth value. -/
  | bool (b : Bool)
  /-- A number. -/
  | number (n : Numeral)
  /-- A string, without its text if it has a surrogate that is not part of a pair. -/
  | string (s : Option String)
  /-- An array. A fault inside an item is in the outline of that item; `stray` is a fault where a
  comma or the closing bracket is due. -/
  | array (items : List Outline) (stray : Option Fault)
  /-- An object. A fault after a name is in the outline of the value of that name. -/
  | object (members : List (Option String × Outline)) (ending : Ending)
  /-- The text ends before the value. -/
  | absent
  /-- A string that breaks off, with the faults met if it is kept and if it is only passed over. -/
  | brokenString (kept passed : Fault)
  /-- Anything else that is not a value, with the faults met if it is kept and if it is only passed
  over. -/
  | broken (kept passed : Fault)

/-- White space between the parts of a text. -/
def isSpace (c : Char) : Bool :=
  c == ' ' || c == '\t' || c == '\n' || c == '\r'

/-- The text from its first character that is not white space on. -/
def skipSpace (cs : List Char) : List Char :=
  cs.dropWhile isSpace

/-- What is left of a text after a word it has to start with. -/
def expectWord : List Char → List Char → Except Fault (List Char)
  | [], cs => .ok cs
  | _ :: _, [] => .error .cutShort
  | w :: ws, c :: cs => if c = w then expectWord ws cs else .error .malformed

/-! ### Strings -/

/-- A string literal after its opening quote, as far as it could be read. -/
inductive StringScan where
  /-- The literal is complete: its text, whether all its surrogates are paired, and what follows it.
  -/
  | complete (text : List Char) (paired : Bool) (rest : List Char)
  /-- The literal breaks off, with the faults met if it is kept and if it is only passed over. -/
  | broken (kept passed : Fault)

/-- Puts a character in front of the text. -/
def StringScan.push (c : Char) : StringScan → StringScan
  | .complete text paired rest => .complete (c :: text) paired rest
  | .broken kept passed => .broken kept passed

/-- Notes a surrogate without a partner in front of the text. -/
def StringScan.unpaired : StringScan → StringScan
  | .complete text _ rest => .complete text false rest
  | .broken _ passed => .broken .malformed passed

/-- Notes that the first half of a pair, if there is one, has not found its partner. -/
def StringScan.without (high : Option Nat) (scan : StringScan) : StringScan :=
  match high with
  | some _ => scan.unpaired
  | none => scan

/-- The value of a hexadecimal digit. -/
def hexValue? (c : Char) : Option Nat :=
  if '0' ≤ c && c ≤ '9' then some (c.toNat - '0'.toNat)
  else if 'a' ≤ c && c ≤ 'f' then some (c.toNat - 'a'.toNat + 10)
  else if 'A' ≤ c && c ≤ 'F' then some (c.toNat - 'A'.toNat + 10)
  else none

/-- The number that four hexadecimal digits stand for. -/
def hexUnit? (a b c d : Char) : Option Nat := do
  return (((← hexValue? a) * 16 + (← hexValue? b)) * 16 + (← hexValue? c)) * 16 + (← hexValue? d)

/-- Whether a unit is the first half of a surrogate pair. -/
def isHighSurrogate (n : Nat) : Bool := 0xD800 ≤ n && n < 0xDC00

/-- Whether a unit is the second half of a surrogate pair. -/
def isLowSurrogate (n : Nat) : Bool := 0xDC00 ≤ n && n < 0xE000

/-- The character a surrogate pair stands for. -/
def pairedChar (high low : Nat) : Char :=
  Char.ofNat (0x10000 + (high - 0xD800) * 0x400 + (low - 0xDC00))

/-- The character that a backslash followed by `c` stands for, unless a code point follows. -/
def simpleEscape? (c : Char) : Option Char :=
  match c with
  | '"' => some '"'
  | '\\' => some '\\'
  | '/' => some '/'
  | 'b' => some '\x08'
  | 'f' => some '\x0c'
  | 'n' => some '\n'
  | 'r' => some '\r'
  | 't' => some '\t'
  | _ => none

/-- The fault of fewer than four characters where four hexadecimal digits are due: they are wrong if
they take up four bytes, and otherwise the text ends too soon. -/
def shortUnitFault (cs : List Char) : Fault :=
  if (String.ofList cs).utf8ByteSize < 4 then .cutShort else .malformed

/-- Reads a string literal, given the first half of a surrogate pair if one stands just before. -/
def scanStringAfter : Option Nat → List Char → StringScan
  | _, [] => .broken .cutShort .cutShort
  | high, '"' :: rest => .without high (.complete [] true rest)
  | _, ['\\'] => .broken .cutShort .cutShort
  | high, '\\' :: 'u' :: a :: b :: c :: d :: rest =>
    match hexUnit? a b c d with
    | none => .broken .malformed .malformed
    | some n =>
      if isLowSurrogate n then
        match high with
        | some h => (scanStringAfter none rest).push (pairedChar h n)
        | none => (scanStringAfter none rest).unpaired
      else if isHighSurrogate n then .without high (scanStringAfter (some n) rest)
      else .without high ((scanStringAfter none rest).push (Char.ofNat n))
  | _, '\\' :: 'u' :: short => .broken (shortUnitFault short) (shortUnitFault short)
  | high, '\\' :: c :: rest =>
    match simpleEscape? c with
    | some c' => .without high ((scanStringAfter none rest).push c')
    | none => .broken .malformed .malformed
  | high, c :: rest =>
    if c.toNat < 0x20 then .broken .malformed .malformed
    else .without high ((scanStringAfter none rest).push c)

/-- Reads a string literal after its opening quote. -/
def scanString (cs : List Char) : StringScan :=
  scanStringAfter none cs

/-! ### Numbers -/

/-- Reads the exponent of a number, if one follows. -/
def scanExponent (cs : List Char) :
    Except (Fault × Fault) (Option (Bool × List Char) × List Char) :=
  match cs with
  | c :: rest =>
    if c = 'e' || c = 'E' then
      let (negative, rest) :=
        match rest with
        | '+' :: rest => (false, rest)
        | '-' :: rest => (true, rest)
        | rest => (false, rest)
      match rest.takeWhile Char.isDigit, rest with
      | [], [] => .error (.cutShort, .malformed)
      | [], _ :: _ => .error (.malformed, .malformed)
      | digits, rest => .ok (some (negative, digits), rest.dropWhile Char.isDigit)
    else .ok (none, cs)
  | [] => .ok (none, cs)

/-- Reads the digits after the point of a number, if there is a point. -/
def scanFraction (cs : List Char) : Except (Fault × Fault) (List Char × List Char) :=
  match cs with
  | '.' :: rest =>
    match rest.takeWhile Char.isDigit, rest with
    | [], [] => .error (.cutShort, .malformed)
    | [], _ :: _ => .error (.malformed, .malformed)
    | digits, rest => .ok (digits, rest.dropWhile Char.isDigit)
  | _ => .ok ([], cs)

/-- Reads the digits before the point. A zero that starts them is the only one of them. -/
def scanWhole (cs : List Char) : Except (Fault × Fault) (List Char × List Char) :=
  match cs.takeWhile Char.isDigit, cs with
  | [], [] => .error (.cutShort, .malformed)
  | [], _ :: _ => .error (.malformed, .malformed)
  | '0' :: _ :: _, _ => .error (.malformed, .malformed)
  | digits, cs => .ok (digits, cs.dropWhile Char.isDigit)

/-- Reads a number, its minus sign included. The faults are those met if it is kept and if it is
only passed over. -/
def scanNumber (cs : List Char) : Except (Fault × Fault) (Numeral × List Char) := do
  let (negative, cs) :=
    match cs with
    | '-' :: rest => (true, rest)
    | cs => (false, cs)
  let (whole, cs) ← scanWhole cs
  let (fraction, cs) ← scanFraction cs
  let (exponent, cs) ← scanExponent cs
  return (⟨negative, whole, fraction, exponent⟩, cs)

/-! ### Values -/

/-- The outline of a word such as `null` after its first character, and what follows it. -/
def scanWord (word : List Char) (value : Outline) (cs : List Char) : Outline × List Char :=
  match expectWord word cs with
  | .ok rest => (value, rest)
  | .error fault => (.broken fault fault, [])

mutual

/-- The outline of the value at the start of a text, and what follows it. The first argument bounds
the number of nested calls. -/
def scanValue : Nat → List Char → Outline × List Char
  | 0, _ => (.absent, [])
  | room + 1, cs =>
    match skipSpace cs with
    | [] => (.absent, [])
    | '"' :: cs =>
      match scanString cs with
      | .complete text paired rest =>
        (.string (if paired then some (String.ofList text) else none), rest)
      | .broken kept passed => (.brokenString kept passed, [])
    | '[' :: cs =>
      match skipSpace cs with
      | [] => (.array [] (some .cutShort), [])
      | ']' :: rest => (.array [] none, rest)
      | cs =>
        let (items, stray, rest) := scanItems room cs
        (.array items stray, rest)
    | '\x7b' :: cs =>
      match skipSpace cs with
      | [] => (.object [] (.noName false .cutShort .cutShort), [])
      | '\x7d' :: rest => (.object [] .closed, rest)
      | '"' :: cs =>
        let (members, ending, rest) := scanMembers room false cs
        (.object members ending, rest)
      | _ :: _ => (.object [] (.noName false .malformed .malformed), [])
    | 'n' :: cs => scanWord ['u', 'l', 'l'] .null cs
    | 't' :: cs => scanWord ['r', 'u', 'e'] (.bool true) cs
    | 'f' :: cs => scanWord ['a', 'l', 's', 'e'] (.bool false) cs
    | c :: cs =>
      if c = '-' || c.isDigit then
        match scanNumber (c :: cs) with
        | .ok (n, rest) => (.number n, rest)
        | .error (kept, passed) => (.broken kept passed, [])
      else (.broken .malformed .malformed, [])

/-- The items of an array from one of them on, the fault after them if there is one, and what
follows the closing bracket. -/
def scanItems : Nat → List Char → List Outline × Option Fault × List Char
  | 0, _ => ([], some .cutShort, [])
  | room + 1, cs =>
    let (v, rest) := scanValue room cs
    match skipSpace rest with
    | [] => ([v], some .cutShort, [])
    | ',' :: rest =>
      let (vs, stray, rest) := scanItems room rest
      (v :: vs, stray, rest)
    | ']' :: rest => ([v], none, rest)
    | _ :: _ => ([v], some .malformed, [])

/-- The members of an object from one of them on, of whose name the opening quote has been read; how
they end; and what follows the closing brace. -/
def scanMembers : Nat → Bool → List Char → List (Option String × Outline) × Ending × List Char
  | 0, afterComma, _ => ([], .noName afterComma .cutShort .cutShort, [])
  | room + 1, afterComma, cs =>
    match scanString cs with
    | .broken kept passed => ([], .noName afterComma kept passed, [])
    | .complete text paired rest =>
      let name := if paired then some (String.ofList text) else none
      match skipSpace rest with
      | [] => ([(name, .absent)], .closed, [])
      | ':' :: rest =>
        let (v, rest) := scanValue room rest
        match skipSpace rest with
        | [] => ([(name, v)], .stray .cutShort, [])
        | '\x7d' :: rest => ([(name, v)], .closed, rest)
        | ',' :: rest =>
          match skipSpace rest with
          | [] => ([(name, v)], .noName true .cutShort .cutShort, [])
          | '"' :: rest =>
            let (ms, ending, rest) := scanMembers room true rest
            ((name, v) :: ms, ending, rest)
          | _ :: _ => ([(name, v)], .noName true .malformed .malformed, [])
        | _ :: _ => ([(name, v)], .stray .malformed, [])
      | _ :: _ => ([(name, .broken .malformed .malformed)], .closed, [])

end

/-- The outline of a text, and what follows its value. Every other nested call reads a character, so
twice the length of the text bounds their number. -/
def outline (cs : List Char) : Outline × List Char :=
  scanValue (2 * cs.length + 2) cs

end MarkupForest.Json
