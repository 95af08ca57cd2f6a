import MarkupForest.Decimal.Shortest
import MarkupForest.Json.Basic
import MarkupForest.Json.Outline
import MarkupForest.Text.Quoted

/-!
# Reading values out of outlines

A reader turns the outline of a text into a value of some type, or says why it cannot. Readers go
from left to right, so of several problems the first one in the text is reported. The readers of
scalars, choices, records and skipped values stand here; those of particular types stand with the
types.
-/

namespace MarkupForest.Json

/-- What a reader finds in place of what it expects. -/
inductive Found where
  /-- The null value. -/
  | null
  /-- A truth value. -/
  | bool (b : Bool)
  /-- A number. -/
  | number (n : Number)
  /-- A string. -/
  | string (s : String)
  /-- An array. -/
  | sequence
  /-- An object. -/
  | map

/-- Doubles are written with a point from the fifth decimal place up to sixteen digits. -/
def floatLayout : Decimal.Layout := ⟨-5, 15, "+"⟩

/-- The text of a finite double. -/
def floatText (x : Float) : String :=
  let sign := if x.toBits.toNat < 0x8000000000000000 then "" else "-"
  sign ++ (if x == 0 then "0.0" else floatLayout.write (Decimal.shortest x))

/-- What was found, in words. -/
def Found.text : Found → String
  | .null => "null"
  | .bool b => "boolean `" ++ (if b then "true" else "false") ++ "`"
  | .number (.int n) => "integer `" ++ String.ofList (digits n) ++ "`"
  | .number (.float x) => "floating point `" ++ floatText x ++ "`"
  | .string s => "string " ++ Text.quoted s
  | .sequence => "sequence"
  | .map => "map"

/-- How JSON fails to be a value of the expected type. -/
inductive Mismatch where
  /-- Another type of value. -/
  | wrongType (found : Found) (expected : String)
  /-- A whole number beyond the range of the type. -/
  | outOfRange (n : Int) (expected : String)
  /-- An array of the wrong length. -/
  | wrongLength (length : Nat) (expected : String)
  /-- A name that is none of the choices. -/
  | unknownVariant (name : String) (choices : List String)
  /-- A member that the type does not have. -/
  | unknownField (name : String) (choices : List String)
  /-- A member that is due and not there. -/
  | missingField (name : String)
  /-- A member that is there twice. -/
  | duplicateField (name : String)

/-- A list of choices in words. -/
def choiceText (choices : List String) : String :=
  match choices.map fun c => "`" ++ c ++ "`" with
  | [a] => a
  | [a, b] => a ++ " or " ++ b
  | cs => "one of " ++ ", ".intercalate cs

/-- The text of a mismatch. -/
def Mismatch.message : Mismatch → String
  | .wrongType found expected => "invalid type: " ++ found.text ++ ", expected " ++ expected
  | .outOfRange n expected =>
    "invalid value: integer `" ++ String.ofList (digits n) ++ "`, expected " ++ expected
  | .wrongLength n expected =>
    "invalid length " ++ String.ofList (digits n) ++ ", expected " ++ expected
  | .unknownVariant name choices =>
    "unknown variant `" ++ name ++ "`, expected " ++ choiceText choices
  | .unknownField name choices =>
    "unknown field `" ++ name ++ "`, expected " ++ choiceText choices
  | .missingField name => "missing field `" ++ name ++ "`"
  | .duplicateField name => "duplicate field `" ++ name ++ "`"

/-- Why a text gives no value of the expected type. -/
inductive ReadError where
  /-- It is not JSON. -/
  | fault (fault : Fault)
  /-- It is JSON that does not fit the type. -/
  | mismatch (mismatch : Mismatch)

/-- The text of the error. A text that is not JSON has no explanation beyond that. -/
def ReadError.message? : ReadError → Option String
  | .fault _ => none
  | .mismatch m => some m.message

/-- A reader of values of a type. -/
abbrev Reader (α : Type) := Outline → Except ReadError α

/-- Stops at a fault. -/
def fail {α : Type} (f : Fault) : Except ReadError α :=
  .error (.fault f)

/-- Stops at a mismatch. -/
def refuse {α : Type} (m : Mismatch) : Except ReadError α :=
  .error (.mismatch m)

/-! ### Scalars -/

/-- What stands in a text. A scalar is read to its end, an array or object is known by its first
character. -/
def Outline.found : Outline → Except ReadError Found
  | .null => .ok .null
  | .bool b => .ok (.bool b)
  | .number n =>
    match n.value with
    | some v => .ok (.number v)
    | none => fail .malformed
  | .string (some s) => .ok (.string s)
  | .string none => fail .malformed
  | .array _ _ => .ok .sequence
  | .object _ _ => .ok .map
  | .absent => fail .cutShort
  | .brokenString kept _ => fail kept
  | .broken kept _ => fail kept

/-- Refuses what stands in a text for what was expected instead. -/
def wrongType {α : Type} (expected : String) (o : Outline) : Except ReadError α := do
  refuse (.wrongType (← o.found) expected)

/-- Reads a whole number from `low` to `high`. -/
def readInt (low high : Int) (expected : String) : Reader Int := fun o => do
  match ← o.found with
  | .number (.int n) =>
    if low ≤ n ∧ n ≤ high then return n else refuse (.outOfRange n expected)
  | found => refuse (.wrongType found expected)

/-- Reads a string. -/
def readString : Reader String := fun o => do
  match ← o.found with
  | .string s => return s
  | found => refuse (.wrongType found "a string")

/-- Reads a truth value. -/
def readBool : Reader Bool := fun o => do
  match ← o.found with
  | .bool b => return b
  | found => refuse (.wrongType found "a boolean")

/-- Reads null as nothing and anything else by `read`. -/
def readOption {α : Type} (read : Reader α) : Reader (Option α)
  | .null => return none
  | o => some <$> read o

/-! ### Choices -/

/-- The choice with the given name. -/
def choose {α : Type} (choices : List (String × α)) (name : String) : Except ReadError α :=
  match choices.lookup name with
  | some a => .ok a
  | none => refuse (.unknownVariant name (choices.map (·.1)))

/-- Reads a choice by its name, or by an object with that name and a null. -/
def readChoice {α : Type} (choices : List (String × α)) : Reader α
  | .string (some name) => choose choices name
  | .object [] (.noName _ kept _) => fail kept
  | .object ((some name, v) :: more) ending => do
    let a ← choose choices name
    match ← v.found with
    | .null =>
      match more, ending with
      | [], .closed => return a
      | [], .stray f => fail f
      | _, _ => fail .malformed
    | found => refuse (.wrongType found "unit")
  | .absent => fail .cutShort
  | .brokenString kept _ => fail kept
  | _ => fail .malformed

/-! ### Objects and arrays -/

/-- What an object's ending means to a reader of its members. -/
def Ending.finish : Ending → Except ReadError Unit
  | .closed => .ok ()
  | .stray f => fail f
  | .noName _ kept _ => fail kept

/-- Reads the members of an object one after the other. -/
def foldMembers {σ : Type} (step : σ → String → Outline → Except ReadError σ) :
    σ → List (Option String × Outline) → Except ReadError σ
  | s, [] => .ok s
  | _, (none, _) :: _ => fail .malformed
  | s, (some name, v) :: rest => do foldMembers step (← step s name v) rest

/-- Keeps a member that may stand only once. -/
def once {α : Type} (name : String) (earlier : Option α) (read : Reader α) (v : Outline) :
    Except ReadError (Option α) := do
  if earlier.isSome then refuse (.duplicateField name) else some <$> read v

/-- The value of a member that has to be there. -/
def require {α : Type} (name : String) : Option α → Except ReadError α
  | some a => .ok a
  | none => refuse (.missingField name)

/-- The items of an array that are still to be read. -/
structure Items where
  /-- The outlines of the items. -/
  items : List Outline
  /-- The fault after them, if there is one. -/
  stray : Option Fault

/-- Reads the next item, if there is one. -/
def Items.next {α : Type} (read : Reader α) : Items → Except ReadError (Option α × Items)
  | ⟨o :: os, stray⟩ => do return (some (← read o), ⟨os, stray⟩)
  | ⟨[], some f⟩ => fail f
  | ⟨[], none⟩ => return (none, ⟨[], none⟩)

/-- Reads the next item, which stands at `index` and has to be there. -/
def Items.expect {α : Type} (read : Reader α) (index : Nat) (expected : String) (items : Items) :
    Except ReadError (α × Items) := do
  match ← items.next read with
  | (some a, rest) => return (a, rest)
  | (none, _) => refuse (.wrongLength index expected)

/-- Checks that the array ends here. -/
def Items.finish : Items → Except ReadError Unit
  | ⟨[], none⟩ => .ok ()
  | ⟨[], some f⟩ => fail f
  | ⟨_ :: _, _⟩ => fail .malformed

/-- How a record is read: as an object, from a state that takes up one member after the other, or as
an array of its fields in order. -/
structure RecordReader (σ α : Type) where
  /-- The name of the record in messages. -/
  name : String
  /-- The state before the first member. -/
  start : σ
  /-- Takes up a member. -/
  member : σ → String → Outline → Except ReadError σ
  /-- The record from all its members. -/
  build : σ → Except ReadError α
  /-- The record from the items of an array, and the items that are left. -/
  ofItems : Items → Except ReadError (α × Items)

/-- Reads a record. -/
def RecordReader.read {σ α : Type} (r : RecordReader σ α) : Reader α
  | .object members ending => do
    let s ← foldMembers r.member r.start members
    ending.finish
    r.build s
  | .array items stray => do
    let (a, rest) ← r.ofItems ⟨items, stray⟩
    rest.finish
    return a
  | o => wrongType ("struct " ++ r.name) o

/-! ### Skipped and kept values -/

mutual

/-- Passes over a value of any form. It has to be JSON, but numbers may be of any size and
surrogates may stand alone. -/
def Outline.skip : Outline → Except ReadError Unit
  | .array items stray => do
    skipItems items
    match stray with
    | none => return
    | some f => fail f
  | .object members ending => do
    skipMembers members
    match ending with
    | .closed => return
    | .stray f => fail f
    | .noName _ _ passed => fail passed
  | .absent => fail .cutShort
  | .brokenString _ passed => fail passed
  | .broken _ passed => fail passed
  | _ => return

/-- Passes over the items of an array. -/
def skipItems : List Outline → Except ReadError Unit
  | [] => return
  | o :: os => do o.skip; skipItems os

/-- Passes over the members of an object. -/
def skipMembers : List (Option String × Outline) → Except ReadError Unit
  | [] => return
  | (_, o) :: rest => do o.skip; skipMembers rest

end

mutual

/-- Checks that a value can be kept for later: its numbers are in range, its surrogates are paired,
and arrays and objects in it are nested less than `depth` deep. -/
def Outline.keep (depth : Nat) : Outline → Except ReadError Unit
  | .array items stray => do
    if depth ≤ 1 then fail .malformed
    keepItems (depth - 1) items
    match stray with
    | none => return
    | some f => fail f
  | .object members ending => do
    if depth ≤ 1 then fail .malformed
    keepMembers (depth - 1) members
    ending.finish
  | o => do let _ ← o.found

/-- Checks that the items of an array can be kept. -/
def keepItems (depth : Nat) : List Outline → Except ReadError Unit
  | [] => return
  | o :: os => do o.keep depth; keepItems depth os

/-- Checks that the members of an object can be kept. -/
def keepMembers (depth : Nat) : List (Option String × Outline) → Except ReadError Unit
  | [] => return
  | (none, _) :: _ => fail .malformed
  | (some _, o) :: rest => do o.keep depth; keepMembers depth rest

end

/-- Arrays and objects may be nested less than this deep around a value that is kept. -/
def nestingLimit : Nat := 128

/-! ### Whole texts -/

/-- Reads a value from a text that holds it and nothing else but white space. -/
def parse {α : Type} (read : Reader α) (text : String) : Except ReadError α := do
  let (o, rest) := outline text.toList
  let a ← read o
  if (skipSpace rest).isEmpty then return a else fail .malformed

end MarkupForest.Json
