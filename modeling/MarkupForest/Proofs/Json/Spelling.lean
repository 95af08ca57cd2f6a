import MarkupForest.Json.Basic
import MarkupForest.Json.Outline

/-!
# All texts of a value

A value has many texts. White space may stand around every part of a text, and a character of a
string may stand for itself, behind a backslash, or as one or two units of four hexadecimal digits.
The scanner makes the same outline out of all of them, and stops right after the text or somewhere
in the white space at its end. What follows the text is arbitrary, except that it must not go on
with a number.

The scanner is given room for its nested calls by the length of the text. Each lemma about it asks
for twice the length of what it reads, which leaves enough for the parts.

## Main definitions

* `Json.SpellsChar` and `Json.SpellsText`: the ways to write characters and strings;
* `Json.Spells`: the ways to write a value;
* `Json.outlined`: the outline of a value;
* `Json.EndsNumber`: a number can end before the text.

## Main results

* `scanString_of_spellsText` and `scanNumber_digits`: strings and numbers are read;
* `readsAs_of_spells` and `outline_of_spells`: values are read, whichever way they are written;
* `outline_of_spellsMembers`: the members at the beginning of an object are read together with the
  name of the next one, whatever follows it.
-/

namespace MarkupForest.Json

variable {rest : List Char}

/-! ## White space -/

/-- Only white space. -/
def Blank (cs : List Char) : Prop :=
  ∀ c ∈ cs, isSpace c = true

theorem blank_nil : Blank [] := by
  simp [Blank]

theorem skipSpace_cons {c : Char} (h : isSpace c = false) (cs : List Char) :
    skipSpace (c :: cs) = c :: cs := by
  simp [skipSpace, h]

theorem skipSpace_append {ws : List Char} (h : Blank ws) (cs : List Char) :
    skipSpace (ws ++ cs) = skipSpace cs :=
  List.dropWhile_append_of_pos h

theorem skipSpace_of_blank {ws : List Char} (h : Blank ws) : skipSpace ws = [] := by
  simpa [skipSpace] using skipSpace_append h []

/-- The text goes on with a character that is not white space, after white space. -/
theorem skipSpace_append_cons {ws : List Char} (h : Blank ws) {c : Char} (hc : isSpace c = false)
    (cs : List Char) : skipSpace (ws ++ c :: cs) = c :: cs := by
  rw [skipSpace_append h, skipSpace_cons hc]

theorem skipSpace_skipSpace (cs : List Char) : skipSpace (skipSpace cs) = skipSpace cs := by
  induction cs with
  | nil => rfl
  | cons c cs ih =>
    cases hc : isSpace c with
    | true => simpa [skipSpace, hc] using ih
    | false => rw [skipSpace_cons hc, skipSpace_cons hc]

/-! ## Strings -/

/-- The ways to write a character in a string literal. -/
inductive SpellsChar (c : Char) : List Char → Prop
  /-- As it is, unless it is a quote, a backslash or a control character. -/
  | plain (hquote : c ≠ '"') (hslash : c ≠ '\\') (hcontrol : ¬c.toNat < 0x20) : SpellsChar c [c]
  /-- By a letter or sign behind a backslash. -/
  | short {e : Char} (h : simpleEscape? e = some c) : SpellsChar c ['\\', e]
  /-- By its number in four hexadecimal digits. -/
  | unit {x y z w : Char} (h : hexUnit? x y z w = some c.toNat) :
      SpellsChar c ['\\', 'u', x, y, z, w]
  /-- By the two halves of a surrogate pair. -/
  | pair {x y z w x' y' z' w' : Char} {high low : Nat} (hhigh : hexUnit? x y z w = some high)
      (hlow : hexUnit? x' y' z' w' = some low) (hhigh' : isHighSurrogate high = true)
      (hlow' : isLowSurrogate low = true)
      (hc : c.toNat = 0x10000 + (high - 0xD800) * 0x400 + (low - 0xDC00)) :
      SpellsChar c ['\\', 'u', x, y, z, w, '\\', 'u', x', y', z', w']

/-- The ways to write some characters in a string literal. -/
inductive SpellsText : List Char → List Char → Prop
  | nil : SpellsText [] []
  | cons {c : Char} {cs text body : List Char} (hc : SpellsChar c cs) (h : SpellsText text body) :
      SpellsText (c :: text) (cs ++ body)

/-- No character has the number of a surrogate. -/
theorem isSurrogate_toNat (c : Char) :
    isLowSurrogate c.toNat = false ∧ isHighSurrogate c.toNat = false := by
  have hvalid : c.toNat < 0xD800 ∨ 0xDFFF < c.toNat ∧ c.toNat < 0x110000 := c.valid
  simp only [isLowSurrogate, isHighSurrogate, Bool.and_eq_false_iff, decide_eq_false_iff_not]
  omega

theorem scanStringAfter_of_spellsChar {c : Char} {cs : List Char} (h : SpellsChar c cs)
    (rest : List Char) :
    scanStringAfter none (cs ++ rest) = (scanStringAfter none rest).push c := by
  cases h with
  | plain hquote hslash hcontrol =>
    rw [List.singleton_append, scanStringAfter, if_neg hcontrol, StringScan.without]
    · exact hquote
    all_goals intros; exact hslash ‹_›
  | short hshort =>
    unfold simpleEscape? at hshort
    split at hshort
    -- eight signs stand for a character behind a backslash, and all others are refused
    case h_9 => cases hshort
    all_goals
      cases hshort
      simp [scanStringAfter, simpleEscape?, StringScan.without]
  | unit hunit =>
    obtain ⟨hlow, hhigh⟩ := isSurrogate_toNat c
    simp [scanStringAfter, hunit, hlow, hhigh, StringScan.without, Char.ofNat_toNat]
  | @pair _ _ _ _ _ _ _ _ high low hhigh hlow hhigh' hlow' hc =>
    -- the first half is not a second one, so the scanner waits for the other half
    have hfirst : isLowSurrogate high = false := by
      simp only [isHighSurrogate, isLowSurrogate, Bool.and_eq_true, decide_eq_true_eq,
        Bool.and_eq_false_iff, decide_eq_false_iff_not] at hhigh' ⊢
      omega
    have hpaired : pairedChar high low = c := by rw [pairedChar, ← hc, Char.ofNat_toNat]
    simp [scanStringAfter, hhigh, hlow, hfirst, hhigh', hlow', StringScan.without, hpaired]

/-- A string is read from every way to write it, after the opening quote. -/
theorem scanString_of_spellsText {text body : List Char} (h : SpellsText text body)
    (rest : List Char) : scanString (body ++ '"' :: rest) = .complete text true rest := by
  induction h with
  | nil => simp [scanString, scanStringAfter, StringScan.without]
  | cons hc _ ih =>
    rw [List.append_assoc, scanString, scanStringAfter_of_spellsChar hc, ← scanString, ih,
      StringScan.push]

/-! ## Numbers -/

/-- A number can end before the text: what comes next would not be read as a part of it. -/
def EndsNumber (rest : List Char) : Prop :=
  ∀ c ∈ rest.head?, c.isDigit = false ∧ c ≠ '.' ∧ c ≠ 'e' ∧ c ≠ 'E'

theorem endsNumber_nil : EndsNumber [] := by
  simp [EndsNumber]

/-- The parts of a whole number as it is written. -/
def numeral : Int → Numeral
  | .ofNat n => ⟨false, Nat.toDigits 10 n, [], none⟩
  | .negSucc n => ⟨true, Nat.toDigits 10 (n + 1), [], none⟩

theorem takeWhile_isDigit_append {ds : List Char} (hds : ∀ c ∈ ds, c.isDigit = true)
    (hrest : EndsNumber rest) : (ds ++ rest).takeWhile Char.isDigit = ds := by
  rw [List.takeWhile_append_of_pos hds]
  cases rest with
  | nil => simp
  | cons c cs => simp [(hrest c rfl).1]

theorem dropWhile_isDigit_append {ds : List Char} (hds : ∀ c ∈ ds, c.isDigit = true)
    (hrest : EndsNumber rest) : (ds ++ rest).dropWhile Char.isDigit = rest := by
  rw [List.dropWhile_append_of_pos hds]
  cases rest with
  | nil => rfl
  | cons c cs => simp [(hrest c rfl).1]

/-- Digits are written without a zero in front. -/
theorem head?_toDigits_ne_zero {n : Nat} (hn : n ≠ 0) :
    (Nat.toDigits 10 n).head? ≠ some '0' := by
  induction n using Nat.strongRecOn with
  | ind n ih =>
    rw [Nat.toDigits_eq_if (by omega)]
    split
    · simpa using hn
    · have hfirst := ih (n / 10) (by omega) (by omega)
      rw [List.head?_append, List.head?_eq_some_head Nat.toDigits_ne_nil]
      rwa [List.head?_eq_some_head Nat.toDigits_ne_nil] at hfirst

theorem scanWhole_toDigits (n : Nat) (hrest : EndsNumber rest) :
    scanWhole (Nat.toDigits 10 n ++ rest) = .ok (Nat.toDigits 10 n, rest) := by
  have hds : ∀ c ∈ Nat.toDigits 10 n, c.isDigit = true :=
    fun c hc => Nat.isDigit_of_mem_toDigits (by omega) (by omega) hc
  unfold scanWhole
  rw [takeWhile_isDigit_append hds hrest]
  split
  · next h _ => exact absurd h Nat.toDigits_ne_nil
  · next h _ => exact absurd h Nat.toDigits_ne_nil
  · next _ c cs h =>
    -- only zero is written with a zero in front, and then nothing comes after it
    by_cases hn : n = 0
    · rw [hn, Nat.toDigits_zero] at h
      cases h
    · exact absurd (by rw [h]; rfl) (head?_toDigits_ne_zero hn)
  · rw [dropWhile_isDigit_append hds hrest]

theorem scanFraction_of_endsNumber (hrest : EndsNumber rest) :
    scanFraction rest = .ok ([], rest) := by
  unfold scanFraction
  split
  · exact absurd rfl (hrest '.' rfl).2.1
  · rfl

theorem scanExponent_of_endsNumber (hrest : EndsNumber rest) :
    scanExponent rest = .ok (none, rest) := by
  unfold scanExponent
  split
  · next c cs =>
    obtain ⟨-, -, he, hE⟩ := hrest c rfl
    simp [he, hE]
  · rfl

theorem exists_toDigits_eq_cons (n : Nat) :
    ∃ c cs, Nat.toDigits 10 n = c :: cs ∧ c.isDigit = true := by
  obtain ⟨c, cs, h⟩ := List.exists_cons_of_ne_nil (Nat.toDigits_ne_nil (n := n) (b := 10))
  exact ⟨c, cs, h, Nat.isDigit_of_mem_toDigits (by omega) (by omega) (h ▸ List.mem_cons_self)⟩

/-- A whole number is read back if the text can go on after a number. -/
theorem scanNumber_digits (n : Int) (hrest : EndsNumber rest) :
    scanNumber (digits n ++ rest) = .ok (numeral n, rest) := by
  have hfraction := scanFraction_of_endsNumber hrest
  have hexponent := scanExponent_of_endsNumber hrest
  cases n with
  | ofNat n =>
    obtain ⟨c, cs, h, hc⟩ := exists_toDigits_eq_cons n
    have hsign : c ≠ '-' := by
      rintro rfl
      cases hc
    rw [scanNumber, digits]
    · simp only [scanWhole_toDigits n hrest, hfraction, hexponent, bind, Except.bind, pure,
        Except.pure, numeral]
    · intro cs' h'
      rw [digits, h] at h'
      exact hsign (List.cons.inj h').1
  | negSucc n =>
    rw [digits, List.cons_append, scanNumber]
    simp only [scanWhole_toDigits (n + 1) hrest, hfraction, hexponent, bind, Except.bind, pure,
      Except.pure, numeral]

/-! ## Outlines of values -/

mutual

/-- The outline of a value. -/
def outlined : Json → Outline
  | .null => .null
  | .bool b => .bool b
  | .int n => .number (numeral n)
  | .str s => .string (some s)
  | .arr items => .array (outlinedItems items) none
  | .obj members => .object (outlinedMembers members) .closed

/-- The outlines of the items of an array. -/
def outlinedItems : List Json → List Outline
  | [] => []
  | v :: items => outlined v :: outlinedItems items

/-- The outlines of the members of an object. -/
def outlinedMembers : List (String × Json) → List (Option String × Outline)
  | [] => []
  | (name, v) :: members => (some name, outlined v) :: outlinedMembers members

end

/-- A number starts with a digit or a minus sign. -/
theorem exists_digits_eq_cons (n : Int) :
    ∃ c cs, digits n = c :: cs ∧ (c = '-' ∨ c.isDigit = true) := by
  cases n with
  | ofNat n =>
    obtain ⟨c, cs, h, hc⟩ := exists_toDigits_eq_cons n
    exact ⟨c, cs, h, .inr hc⟩
  | negSucc n => exact ⟨'-', _, rfl, .inl rfl⟩

/-- What starts a number starts nothing else. -/
theorem not_mem_of_startsNumber {c : Char} (h : c = '-' ∨ c.isDigit = true) :
    c ∉ [' ', '\t', '\n', '\r', '"', '[', ']', '\x7b', 'n', 't', 'f'] := by
  rcases h with rfl | h
  · decide
  · intro hc
    have hother : [' ', '\t', '\n', '\r', '"', '[', ']', '\x7b', 'n', 't', 'f'].all
        (fun d => !d.isDigit) = true := by
      decide
    have hd := List.all_eq_true.1 hother c hc
    simp [h] at hd

theorem scanValue_number {room : Nat} {c : Char} {cs : List Char} (hc : c = '-' ∨ c.isDigit = true)
    {n : Numeral} (hn : scanNumber (c :: cs) = .ok (n, rest)) :
    scanValue (room + 1) (c :: cs) = (.number n, rest) := by
  have hnot := not_mem_of_startsNumber hc
  simp only [List.mem_cons, not_or] at hnot
  rw [scanValue, skipSpace_cons (by simp [isSpace, hnot])]
  simp [hnot, hc, hn]

/-! ## Values -/

/-- The ways to write the name of a member, with or without white space around it. -/
inductive SpellsName (name : String) : List Char → Prop
  | mk {before body after : List Char} (hbefore : Blank before)
      (h : SpellsText name.toList body) (hafter : Blank after) :
      SpellsName name (before ++ '"' :: (body ++ '"' :: after))

mutual

/-- The ways to write a value, with or without white space around it. -/
inductive Spells : Json → List Char → Prop
  | null : Spells .null ['n', 'u', 'l', 'l']
  | true : Spells (.bool true) ['t', 'r', 'u', 'e']
  | false : Spells (.bool false) ['f', 'a', 'l', 's', 'e']
  | int (n : Int) : Spells (.int n) (digits n)
  | str {s : String} {body : List Char} (h : SpellsText s.toList body) :
      Spells (.str s) ('"' :: (body ++ ['"']))
  | emptyArr {ws : List Char} (h : Blank ws) : Spells (.arr []) ('[' :: (ws ++ [']']))
  | arr {items : List Json} {v : Json} {cs vs : List Char} (hitems : SpellsItems items cs)
      (hv : Spells v vs) : Spells (.arr (items ++ [v])) ('[' :: (cs ++ (vs ++ [']'])))
  | emptyObj {ws : List Char} (h : Blank ws) : Spells (.obj []) ('\x7b' :: (ws ++ ['\x7d']))
  | obj {members : List (String × Json)} {name : String} {v : Json} {cs ns vs : List Char}
      (hmembers : SpellsMembers members cs) (hname : SpellsName name ns) (hv : Spells v vs) :
      Spells (.obj (members ++ [(name, v)])) ('\x7b' :: (cs ++ (ns ++ ':' :: (vs ++ ['\x7d']))))
  | padded {v : Json} {before cs after : List Char} (hbefore : Blank before) (h : Spells v cs)
      (hafter : Blank after) : Spells v (before ++ (cs ++ after))

/-- The ways to write items of an array, each with a comma after it. -/
inductive SpellsItems : List Json → List Char → Prop
  | nil : SpellsItems [] []
  | cons {v : Json} {items : List Json} {vs cs : List Char} (hv : Spells v vs)
      (h : SpellsItems items cs) : SpellsItems (v :: items) (vs ++ ',' :: cs)

/-- The ways to write members of an object, each with a comma after it. -/
inductive SpellsMembers : List (String × Json) → List Char → Prop
  | nil : SpellsMembers [] []
  | cons {name : String} {v : Json} {members : List (String × Json)} {ns vs cs : List Char}
      (hname : SpellsName name ns) (hv : Spells v vs) (h : SpellsMembers members cs) :
      SpellsMembers ((name, v) :: members) (ns ++ ':' :: (vs ++ ',' :: cs))

end

theorem Spells.congr {v : Json} {cs cs' : List Char} (h : Spells v cs) (hcs : cs = cs') :
    Spells v cs' :=
  hcs ▸ h

theorem EndsNumber.append {ws : List Char} (hws : Blank ws) (h : EndsNumber rest) :
    EndsNumber (ws ++ rest) := by
  cases ws with
  | nil => exact h
  | cons c cs =>
    have hc : isSpace c = true := hws c List.mem_cons_self
    intro d hd
    obtain rfl : c = d := by simpa using hd
    simp only [isSpace, Bool.or_eq_true, beq_iff_eq] at hc
    rcases hc with ((rfl | rfl) | rfl) | rfl <;> decide

theorem scanValue_skipSpace (room : Nat) (cs : List Char) :
    scanValue room (skipSpace cs) = scanValue room cs := by
  cases room with
  | zero => rw [scanValue, scanValue]
  | succ room => rw [scanValue, skipSpace_skipSpace, scanValue]

theorem scanItems_skipSpace (room : Nat) (cs : List Char) :
    scanItems room (skipSpace cs) = scanItems room cs := by
  cases room with
  | zero => rw [scanItems, scanItems]
  | succ room => rw [scanItems, scanValue_skipSpace, scanItems]

/-- Items of an array go on with the text: there is more, and it does not close the array. -/
def StartsItem (cs : List Char) : Prop :=
  ∃ c t, skipSpace cs = c :: t ∧ c ≠ ']'

/-- The scanner makes the outline of a value out of a text, whatever follows the text. -/
structure ReadsAs (v : Json) (cs : List Char) : Prop where
  /-- The text can stand in an array. -/
  starts : ∀ rest, StartsItem (cs ++ rest)
  /-- The scanner makes the outline of the value out of it and leaves at most white space. -/
  scan : ∀ room rest, 2 * cs.length ≤ room → EndsNumber rest →
    ∃ ws, Blank ws ∧ scanValue room (cs ++ rest) = (v.outlined, ws ++ rest)

/-- The scanner reads items up to the next one, whatever that is. -/
structure ReadsItemsAs (items : List Json) (cs : List Char) : Prop where
  /-- The text can stand in an array before another item. -/
  starts : ∀ rest, StartsItem rest → StartsItem (cs ++ rest)
  /-- There is a comma for each item. -/
  length_le : items.length ≤ cs.length
  /-- The scanner puts the outlines of the items in front of what follows. -/
  scan : ∀ room rest, 2 * cs.length ≤ room + items.length →
    scanItems (room + items.length) (cs ++ rest) =
      (outlinedItems items ++ (scanItems room rest).1, (scanItems room rest).2)

/-- The scanner reads members up to the name of the next one, whatever comes after that. -/
structure ReadsMembersAs (members : List (String × Json)) (cs : List Char) : Prop where
  /-- There is a comma for each member. -/
  length_le : members.length ≤ cs.length
  /-- The scanner puts the outlines of the members in front of what follows. -/
  scan : ∀ room rest more, skipSpace rest = '"' :: more → 2 * cs.length ≤ room + members.length →
    ∃ t, skipSpace (cs ++ rest) = '"' :: t ∧ ∀ afterComma, ∃ afterComma',
      scanMembers (room + members.length) afterComma t =
        (outlinedMembers members ++ (scanMembers room afterComma' more).1,
          (scanMembers room afterComma' more).2)

section Parts

variable {v : Json} {cs vs : List Char} {room : Nat}

theorem readsAs_padded {before after : List Char} (hbefore : Blank before)
    (h : ReadsAs v cs) (hafter : Blank after) : ReadsAs v (before ++ (cs ++ after)) where
  starts rest := by
    obtain ⟨c, t, hstart, hc⟩ := h.starts (after ++ rest)
    refine ⟨c, t, ?_, hc⟩
    rw [List.append_assoc, skipSpace_append hbefore, List.append_assoc, hstart]
  scan room rest hroom hrest := by
    simp only [List.length_append] at hroom
    obtain ⟨ws, hws, hscan⟩ := h.scan room (after ++ rest) (by omega) (hrest.append hafter)
    refine ⟨ws ++ after, fun c hc => (List.mem_append.1 hc).elim (hws c) (hafter c), ?_⟩
    rw [List.append_assoc, ← scanValue_skipSpace, skipSpace_append hbefore, scanValue_skipSpace,
      List.append_assoc, hscan, List.append_assoc]

/-- A text that starts with a character of its own is read if it is read with room for one call. -/
theorem readsAs_cons {c : Char} (hc : isSpace c = false) (hc' : c ≠ ']')
    (h : ∀ room rest, 2 * cs.length + 1 ≤ room → EndsNumber rest →
      scanValue (room + 1) (c :: (cs ++ rest)) = (v.outlined, rest)) : ReadsAs v (c :: cs) where
  starts rest := ⟨c, cs ++ rest, skipSpace_cons hc _, hc'⟩
  scan room rest hroom hrest := by
    rw [List.length_cons] at hroom
    obtain ⟨room, rfl⟩ := Nat.exists_eq_succ_of_ne_zero (n := room) (by omega)
    exact ⟨[], blank_nil, h room rest (by omega) hrest⟩

theorem readsAs_null : ReadsAs .null ['n', 'u', 'l', 'l'] := by
  refine readsAs_cons rfl (by decide) fun room rest _ _ => ?_
  simp [scanValue, skipSpace_cons (c := 'n') rfl, scanWord, expectWord, outlined]

theorem readsAs_true : ReadsAs (.bool true) ['t', 'r', 'u', 'e'] := by
  refine readsAs_cons rfl (by decide) fun room rest _ _ => ?_
  simp [scanValue, skipSpace_cons (c := 't') rfl, scanWord, expectWord, outlined]

theorem readsAs_false : ReadsAs (.bool false) ['f', 'a', 'l', 's', 'e'] := by
  refine readsAs_cons rfl (by decide) fun room rest _ _ => ?_
  simp [scanValue, skipSpace_cons (c := 'f') rfl, scanWord, expectWord, outlined]

theorem readsAs_int (n : Int) : ReadsAs (.int n) (digits n) := by
  obtain ⟨c, cs, h, hc⟩ := exists_digits_eq_cons n
  have hnot := not_mem_of_startsNumber hc
  simp only [List.mem_cons, not_or] at hnot
  rw [h]
  refine readsAs_cons (by simp [isSpace, hnot]) (by simp [hnot]) fun room rest _ hrest => ?_
  have hscan := scanNumber_digits n hrest
  rw [h] at hscan
  rw [outlined]
  exact scanValue_number hc hscan

theorem readsAs_str {s : String} {body : List Char} (h : SpellsText s.toList body) :
    ReadsAs (.str s) ('"' :: (body ++ ['"'])) := by
  refine readsAs_cons rfl (by decide) fun room rest _ _ => ?_
  rw [List.append_assoc, scanValue, skipSpace_cons (by rfl)]
  simp [scanString_of_spellsText h, outlined]

/-! ### Arrays -/

theorem scanValue_arr (h : StartsItem cs) :
    scanValue (room + 1) ('[' :: cs) =
      (.array (scanItems room cs).1 (scanItems room cs).2.1, (scanItems room cs).2.2) := by
  obtain ⟨c, t, hstart, hc⟩ := h
  have hitems : scanItems room (c :: t) = scanItems room cs := by
    rw [← hstart, scanItems_skipSpace]
  rw [scanValue, skipSpace_cons (by rfl)]
  simp [hstart, hc, hitems]

theorem scanItems_last (hv : ReadsAs v vs) (hroom : 2 * vs.length ≤ room) (rest : List Char) :
    scanItems (room + 1) (vs ++ ']' :: rest) = ([v.outlined], none, rest) := by
  obtain ⟨ws, hws, hscan⟩ := hv.scan room (']' :: rest) hroom (by simp [EndsNumber])
  rw [scanItems, hscan]
  simp [skipSpace_append_cons hws (c := ']') rfl]

theorem readsItemsAs_cons {items : List Json} (hv : ReadsAs v vs) (h : ReadsItemsAs items cs) :
    ReadsItemsAs (v :: items) (vs ++ ',' :: cs) where
  starts rest _ := by
    rw [List.append_assoc]
    exact hv.starts _
  length_le := by
    simp only [List.length_cons, List.length_append]
    have hitems := h.length_le
    omega
  scan room rest hroom := by
    simp only [List.length_append, List.length_cons] at hroom
    obtain ⟨ws, hws, hscan⟩ := hv.scan (room + items.length) (',' :: (cs ++ rest)) (by omega)
      (by simp [EndsNumber])
    rw [List.length_cons, ← Nat.add_assoc, List.append_assoc, List.cons_append, scanItems, hscan]
    simp [skipSpace_append_cons hws (c := ',') rfl, h.scan room rest (by omega), outlinedItems]

theorem outlinedItems_append (items items' : List Json) :
    outlinedItems (items ++ items') = outlinedItems items ++ outlinedItems items' := by
  induction items with
  | nil => rfl
  | cons v items ih => rw [List.cons_append, outlinedItems, ih, outlinedItems, List.cons_append]

theorem readsAs_arr {items : List Json} (hitems : ReadsItemsAs items cs) (hv : ReadsAs v vs) :
    ReadsAs (.arr (items ++ [v])) ('[' :: (cs ++ (vs ++ [']']))) := by
  refine readsAs_cons rfl (by decide) fun room rest hroom _ => ?_
  simp only [List.length_append, List.length_cons] at hroom
  have hlength := hitems.length_le
  -- room is left for the last item after all the others
  obtain ⟨left, rfl⟩ : ∃ left, room = left + 1 + items.length :=
    ⟨room - items.length - 1, by omega⟩
  have htext : cs ++ (vs ++ [']']) ++ rest = cs ++ (vs ++ ']' :: rest) := by simp
  have hscan := hitems.scan (left + 1) (vs ++ ']' :: rest) (by omega)
  rw [scanItems_last hv (by omega)] at hscan
  rw [htext, scanValue_arr (hitems.starts _ (hv.starts _)), hscan, outlined, outlinedItems_append]
  rfl

theorem readsAs_emptyArr {ws : List Char} (h : Blank ws) :
    ReadsAs (.arr []) ('[' :: (ws ++ [']'])) := by
  refine readsAs_cons rfl (by decide) fun room rest _ _ => ?_
  rw [List.append_assoc, scanValue, skipSpace_cons (by rfl)]
  simp [skipSpace_append_cons h (c := ']') rfl, outlined, outlinedItems]

/-! ### Objects -/

theorem scanValue_obj {t : List Char} (h : skipSpace cs = '"' :: t) :
    scanValue (room + 1) ('\x7b' :: cs) =
      (.object (scanMembers room false t).1 (scanMembers room false t).2.1,
        (scanMembers room false t).2.2) := by
  rw [scanValue, skipSpace_cons (by rfl)]
  simp [h]

/-- The name of a member stands after the quote that starts it. -/
theorem SpellsName.exists_eq {name : String} {ns : List Char} (h : SpellsName name ns)
    (rest : List Char) :
    ∃ body after, SpellsText name.toList body ∧ Blank after ∧
      skipSpace (ns ++ rest) = '"' :: (body ++ '"' :: (after ++ rest)) := by
  obtain ⟨hbefore, htext, hafter⟩ := h
  refine ⟨_, _, htext, hafter, ?_⟩
  rw [List.append_assoc, List.cons_append, skipSpace_append_cons hbefore (by rfl)]
  simp

theorem scanMembers_last {name : String} {body after : List Char}
    (hname : SpellsText name.toList body) (hafter : Blank after) (hv : ReadsAs v vs)
    (hroom : 2 * vs.length ≤ room) (afterComma : Bool) (rest : List Char) :
    scanMembers (room + 1) afterComma (body ++ '"' :: (after ++ ':' :: (vs ++ '\x7d' :: rest))) =
      ([(some name, v.outlined)], .closed, rest) := by
  obtain ⟨ws, hws, hscan⟩ := hv.scan room ('\x7d' :: rest) hroom (by simp [EndsNumber])
  rw [scanMembers, scanString_of_spellsText hname]
  simp [skipSpace_append_cons hafter (c := ':') rfl, hscan,
    skipSpace_append_cons hws (c := '\x7d') rfl]

theorem scanMembers_cons {name : String} {body after more t : List Char}
    (hname : SpellsText name.toList body) (hafter : Blank after) (hv : ReadsAs v vs)
    (hroom : 2 * vs.length ≤ room) (hmore : skipSpace more = '"' :: t) (afterComma : Bool) :
    scanMembers (room + 1) afterComma (body ++ '"' :: (after ++ ':' :: (vs ++ ',' :: more))) =
      ((some name, v.outlined) :: (scanMembers room true t).1, (scanMembers room true t).2) := by
  obtain ⟨ws, hws, hscan⟩ := hv.scan room (',' :: more) hroom (by simp [EndsNumber])
  rw [scanMembers, scanString_of_spellsText hname]
  simp [skipSpace_append_cons hafter (c := ':') rfl, hscan,
    skipSpace_append_cons hws (c := ',') rfl, hmore]

theorem readsMembersAs_nil : ReadsMembersAs [] [] where
  length_le := Nat.le_refl _
  scan _ _ more hrest _ := ⟨more, hrest, fun afterComma => ⟨afterComma, rfl⟩⟩

theorem readsMembersAs_cons {name : String} {members : List (String × Json)} {ns : List Char}
    (hname : SpellsName name ns) (hv : ReadsAs v vs) (h : ReadsMembersAs members cs) :
    ReadsMembersAs ((name, v) :: members) (ns ++ ':' :: (vs ++ ',' :: cs)) where
  length_le := by
    simp only [List.length_cons, List.length_append]
    have hmembers := h.length_le
    omega
  scan room rest more hrest hroom := by
    simp only [List.length_append, List.length_cons] at hroom
    obtain ⟨t, ht, hscan⟩ := h.scan room rest more hrest (by omega)
    obtain ⟨body, after, htext, hafter, hstart⟩ :=
      hname.exists_eq (':' :: (vs ++ ',' :: (cs ++ rest)))
    have hall : ns ++ ':' :: (vs ++ ',' :: cs) ++ rest =
        ns ++ ':' :: (vs ++ ',' :: (cs ++ rest)) := by simp
    refine ⟨_, by rw [hall]; exact hstart, fun afterComma => ?_⟩
    obtain ⟨afterComma', hmembers⟩ := hscan true
    refine ⟨afterComma', ?_⟩
    rw [List.length_cons, ← Nat.add_assoc,
      scanMembers_cons htext hafter hv (by omega) ht, hmembers, outlinedMembers, List.cons_append]

theorem outlinedMembers_append (members members' : List (String × Json)) :
    outlinedMembers (members ++ members') =
      outlinedMembers members ++ outlinedMembers members' := by
  induction members with
  | nil => rfl
  | cons m members ih =>
    rw [List.cons_append, outlinedMembers, ih, outlinedMembers, List.cons_append]

theorem readsAs_obj {members : List (String × Json)} {name : String} {ns : List Char}
    (hmembers : ReadsMembersAs members cs) (hname : SpellsName name ns) (hv : ReadsAs v vs) :
    ReadsAs (.obj (members ++ [(name, v)]))
      ('\x7b' :: (cs ++ (ns ++ ':' :: (vs ++ ['\x7d'])))) := by
  refine readsAs_cons rfl (by decide) fun room rest hroom _ => ?_
  simp only [List.length_append, List.length_cons] at hroom
  have hlength := hmembers.length_le
  -- room is left for the last member after all the others
  obtain ⟨left, rfl⟩ : ∃ left, room = left + 1 + members.length :=
    ⟨room - members.length - 1, by omega⟩
  have htext : cs ++ (ns ++ ':' :: (vs ++ ['\x7d'])) ++ rest =
      cs ++ (ns ++ ':' :: (vs ++ '\x7d' :: rest)) := by simp
  obtain ⟨body, after, hbody, hafter, hstart⟩ := hname.exists_eq (':' :: (vs ++ '\x7d' :: rest))
  obtain ⟨t, ht, hscan⟩ := hmembers.scan (left + 1) _ _ hstart (by omega)
  obtain ⟨afterComma, hscan⟩ := hscan false
  rw [scanMembers_last hbody hafter hv (by omega)] at hscan
  rw [htext, scanValue_obj ht, hscan, outlined, outlinedMembers_append]
  rfl

theorem readsAs_emptyObj {ws : List Char} (h : Blank ws) :
    ReadsAs (.obj []) ('\x7b' :: (ws ++ ['\x7d'])) := by
  refine readsAs_cons rfl (by decide) fun room rest _ _ => ?_
  rw [List.append_assoc, scanValue, skipSpace_cons (by rfl)]
  simp [skipSpace_append_cons h (c := '\x7d') rfl, outlined, outlinedMembers]

end Parts

/-! ### All values -/

mutual

/-- A value is read, whichever way it is written. -/
theorem readsAs_of_spells {v : Json} {cs : List Char} : Spells v cs → ReadsAs v cs
  | .null => readsAs_null
  | .true => readsAs_true
  | .false => readsAs_false
  | .int n => readsAs_int n
  | .str htext => readsAs_str htext
  | .emptyArr hws => readsAs_emptyArr hws
  | .arr hitems hv => readsAs_arr (readsItemsAs_of_spells hitems) (readsAs_of_spells hv)
  | .emptyObj hws => readsAs_emptyObj hws
  | .obj hmembers hname hv =>
    readsAs_obj (readsMembersAs_of_spells hmembers) hname (readsAs_of_spells hv)
  | .padded hbefore h hafter => readsAs_padded hbefore (readsAs_of_spells h) hafter

theorem readsItemsAs_of_spells {items : List Json} {cs : List Char} :
    SpellsItems items cs → ReadsItemsAs items cs
  | .nil => ⟨fun _ h => h, Nat.le_refl _, fun _ _ _ => rfl⟩
  | .cons hv h => readsItemsAs_cons (readsAs_of_spells hv) (readsItemsAs_of_spells h)

theorem readsMembersAs_of_spells {members : List (String × Json)} {cs : List Char} :
    SpellsMembers members cs → ReadsMembersAs members cs
  | .nil => readsMembersAs_nil
  | .cons hname hv h =>
    readsMembersAs_cons hname (readsAs_of_spells hv) (readsMembersAs_of_spells h)

end

/-- The outline of every text of a value is that of the value, and only white space is left. -/
theorem outline_of_spells {v : Json} {cs : List Char} (h : Spells v cs) :
    ∃ ws, Blank ws ∧ outline cs = (v.outlined, ws) := by
  obtain ⟨ws, hws, hscan⟩ :=
    (readsAs_of_spells h).scan (2 * cs.length + 2) [] (by omega) endsNumber_nil
  rw [List.append_nil, List.append_nil] at hscan
  exact ⟨ws, hws, hscan⟩

/-! ### The beginning of an object -/

/-- A name is read before what follows it is looked at. -/
theorem scanMembers_name {name : String} {body : List Char} (hname : SpellsText name.toList body)
    (room : Nat) (afterComma : Bool) (rest : List Char) :
    ∃ v more, (scanMembers (room + 1) afterComma (body ++ '"' :: rest)).1 =
      (some name, v) :: more := by
  rw [scanMembers, scanString_of_spellsText hname]
  simp only [String.ofList_toList, if_true]
  -- wherever the scanner goes from here, the name is in front of what it finds
  split
  · exact ⟨_, _, rfl⟩
  · split
    · exact ⟨_, _, rfl⟩
    · exact ⟨_, _, rfl⟩
    · split <;> exact ⟨_, _, rfl⟩
    · exact ⟨_, _, rfl⟩
  · exact ⟨_, _, rfl⟩

/-- Members and the name of one more are read from the beginning of an object, whatever follows. -/
theorem outline_of_spellsMembers {before cs ns : List Char} {members : List (String × Json)}
    {name : String} (hbefore : Blank before) (hmembers : SpellsMembers members cs)
    (hname : SpellsName name ns) (rest : List Char) :
    ∃ v more ending, (outline (before ++ '\x7b' :: (cs ++ (ns ++ rest)))).1 =
      .object (outlinedMembers members ++ (some name, v) :: more) ending := by
  have hreads := readsMembersAs_of_spells hmembers
  have hlength := hreads.length_le
  obtain ⟨body, after, hbody, -, hstart⟩ := hname.exists_eq rest
  -- room is left for the name after all members
  obtain ⟨left, hleft⟩ : ∃ left, 2 * (before ++ '\x7b' :: (cs ++ (ns ++ rest))).length + 2 =
      left + 1 + members.length + 1 :=
    ⟨2 * (before ++ '\x7b' :: (cs ++ (ns ++ rest))).length - members.length, by
      simp only [List.length_append, List.length_cons]; omega⟩
  have hroom : 2 * cs.length ≤ left + 1 + members.length := by
    simp only [List.length_append, List.length_cons] at hleft
    omega
  obtain ⟨t, ht, hscan⟩ := hreads.scan (left + 1) _ _ hstart hroom
  obtain ⟨afterComma, hscan⟩ := hscan false
  obtain ⟨v, more, hnext⟩ := scanMembers_name hbody left afterComma (after ++ rest)
  refine ⟨v, more, (scanMembers (left + 1 + members.length) false t).2.1, ?_⟩
  rw [outline, hleft, ← scanValue_skipSpace, skipSpace_append_cons hbefore (by rfl),
    scanValue_obj ht, hscan, hnext]

end MarkupForest.Json
