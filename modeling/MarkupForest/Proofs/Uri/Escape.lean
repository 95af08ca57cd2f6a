import MarkupForest.Json.Outline
import MarkupForest.Uri.Escape
import Mathlib.Data.Bool.AllAny
import Mathlib.Data.List.DropRight
import Mathlib.Data.List.Infix
import Mathlib.Tactic.SplitIfs

/-!
# Reading escaped text

Text that stands inside a URI can be read back: each percent escape gives a byte, every other
character gives its own bytes, and the bytes together are a text again. What is read back is the
text that was escaped, up to the spaces, which have become underscores. So two texts are escaped
alike only if they differ in this and in nothing else.

Escaping also leaves no character in the text that a URI has no place for, and every percent sign in
it begins an escape. A text that is put together from such texts is such a text. One that is cut in
two has whole escapes on both sides as long as no percent sign stands in the last two places before
the cut.

## Main definitions

* `unescape`: the bytes for which bytes with percent escapes stand;
* `decode?`: the text for which a text with percent escapes stands;
* `WholeEscapes`: every percent sign of a text has two digits after it;
* `Barred` and `WellEscaped`: characters that a URI has no place for, and text that may stand in
  one.

## Main results

* `unescape_escape`: the bytes of an escaped text;
* `escape_faithful`: escaped text is read back;
* `WholeEscapes.of_append_left`: the first part of a text that is cut in two;
* `mem_escape` and `wellEscaped_escape`: the characters of escaped text, and their order.
-/

namespace MarkupForest.Uri

/-! ## Reading escapes -/

/-- The value of a byte that is a hexadecimal digit. -/
def hexByte? (b : UInt8) : Option Nat :=
  Json.hexValue? (Char.ofUInt8 b)

/-- The byte for which three bytes stand if these are a percent sign and two hexadecimal digits. -/
def escapedByte? (a b c : UInt8) : Option UInt8 :=
  if a = 0x25 then do
    return .ofNat (16 * (← hexByte? b) + (← hexByte? c))
  else none

/-- The bytes for which bytes with percent escapes stand. A percent sign without two hexadecimal
digits after it stands for itself. -/
def unescape : List UInt8 → List UInt8
  | a :: b :: c :: bs =>
    match escapedByte? a b c with
    | some byte => byte :: unescape bs
    | none => a :: unescape (b :: c :: bs)
  | bs => bs

/-- The text for which a text with percent escapes stands, if the bytes are those of a text. -/
def decode? (cs : List Char) : Option (List Char) :=
  (unescape (cs.flatMap String.utf8EncodeChar)).toByteArray.utf8Decode?.map Array.toList

theorem decode?_eq_some {cs ws : List Char}
    (h : unescape (cs.flatMap String.utf8EncodeChar) = ws.flatMap String.utf8EncodeChar) :
    decode? cs = some ws := by
  have hbytes : (ws.flatMap String.utf8EncodeChar).toByteArray = ws.utf8Encode := rfl
  rw [decode?, h, hbytes, List.utf8Decode?_utf8Encode]
  rfl

theorem unescape_cons_of_ne {a : UInt8} (ha : a ≠ 0x25) (bs : List UInt8) :
    unescape (a :: bs) = a :: unescape bs := by
  match bs with
  | [] => rfl
  | [b] => rfl
  | b :: c :: bs => rw [unescape, escapedByte?, if_neg ha]

/-- Bytes without a percent sign stand for themselves. -/
theorem unescape_append_of_not_mem {as : List UInt8} (has : 0x25 ∉ as) (bs : List UInt8) :
    unescape (as ++ bs) = as ++ unescape bs := by
  induction as with
  | nil => rfl
  | cons a as ih =>
    rw [List.mem_cons, not_or] at has
    rw [List.cons_append, unescape_cons_of_ne (Ne.symm has.1), ih has.2, List.cons_append]

/-- A byte that is the code of an ASCII character stands in the encoding of that character only. -/
theorem toNat_eq_of_mem_utf8EncodeChar {c : Char} {b : UInt8} (hb : b ∈ String.utf8EncodeChar c)
    (hascii : b.toNat < 0x80) : c.toNat = b.toNat := by
  have hval : c.toNat = c.val.toNat := rfl
  simp only [String.utf8EncodeChar] at hb
  -- a character of several bytes has the highest bit set in each of them
  split_ifs at hb <;>
    simp only [List.mem_cons, List.not_mem_nil, or_false, ← UInt8.toNat_inj,
      UInt8.toNat_ofNat'] at hb <;>
    omega

theorem percent_not_mem_utf8EncodeChar {c : Char} (hc : c ≠ '%') :
    0x25 ∉ String.utf8EncodeChar c := by
  intro h
  have hcode : c.toNat = '%'.toNat := toNat_eq_of_mem_utf8EncodeChar h (by decide)
  exact hc (Char.toNat_inj.mp hcode)

/-! ## Reading back what is escaped -/

/-- A character with an underscore for the space. -/
def underscored (c : Char) : Char :=
  if c = ' ' then '_' else c

theorem hexByte?_hexDigit : ∀ n < 16,
    String.utf8EncodeChar (hexDigit n) = [.ofNat (hexDigit n).toNat] ∧
      hexByte? (.ofNat (hexDigit n).toNat) = some n := by
  decide

/-- A byte is read back from its escape. -/
theorem unescape_percentByte (b : UInt8) (bs : List UInt8) :
    unescape ((percentByte b).flatMap String.utf8EncodeChar ++ bs) = b :: unescape bs := by
  have hb := b.toNat_lt
  obtain ⟨hhi, hhi'⟩ := hexByte?_hexDigit (b.toNat / 16) (by omega)
  obtain ⟨hlo, hlo'⟩ := hexByte?_hexDigit (b.toNat % 16) (by omega)
  have hsign : String.utf8EncodeChar '%' = [0x25] := rfl
  have hescaped : escapedByte? 0x25 (.ofNat (hexDigit (b.toNat / 16)).toNat)
      (.ofNat (hexDigit (b.toNat % 16)).toNat) = some b := by
    simp only [escapedByte?, if_true, hhi', hlo', Option.bind_eq_bind, Option.bind_some,
      Nat.div_add_mod, UInt8.ofNat_toNat, Option.pure_def]
  simp [percentByte, hhi, hlo, hsign, unescape, hescaped]

theorem unescape_percentBytes (as bs : List UInt8) :
    unescape ((as.flatMap percentByte).flatMap String.utf8EncodeChar ++ bs) = as ++ unescape bs := by
  induction as with
  | nil => rfl
  | cons a as ih =>
    rw [List.flatMap_cons, List.flatMap_append, List.append_assoc, unescape_percentByte, ih,
      List.cons_append]

/-- The cases of `escapeChar`. -/
theorem escapeChar_cases (c : Char) :
    c = ' ' ∧ escapeChar c = ['_'] ∨
      mustEscape c ∧ escapeChar c = (String.utf8EncodeChar c).flatMap percentByte ∨
      (c ≠ ' ' ∧ ¬mustEscape c) ∧ escapeChar c = [c] := by
  unfold escapeChar
  split_ifs with hspace hmust
  · exact .inl ⟨hspace, rfl⟩
  · exact .inr (.inl ⟨hmust, rfl⟩)
  · exact .inr (.inr ⟨⟨hspace, hmust⟩, rfl⟩)

/-- A character is read back from the way it stands inside a URI. -/
theorem unescape_escapeChar (c : Char) (bs : List UInt8) :
    unescape ((escapeChar c).flatMap String.utf8EncodeChar ++ bs) =
      String.utf8EncodeChar (underscored c) ++ unescape bs := by
  rcases escapeChar_cases c with ⟨rfl, h⟩ | ⟨hmust, h⟩ | ⟨⟨hspace, hmust⟩, h⟩
  · rw [h, List.flatMap_singleton,
      unescape_append_of_not_mem (percent_not_mem_utf8EncodeChar (by decide))]
    rfl
  · -- the space needs no escape, so this is another character
    have hspace : c ≠ ' ' := by
      rintro rfl
      contradiction
    rw [h, unescape_percentBytes, underscored, if_neg hspace]
  · -- a percent sign would be escaped, so none is in the way of reading
    have hsign : c ≠ '%' := by
      rintro rfl
      exact hmust (by decide)
    rw [h, List.flatMap_singleton,
      unescape_append_of_not_mem (percent_not_mem_utf8EncodeChar hsign), underscored,
      if_neg hspace]

/-- The bytes of an escaped text stand for the bytes of the text with underscores for spaces. -/
theorem unescape_escape (cs : List Char) :
    unescape ((escape cs).flatMap String.utf8EncodeChar) =
      (cs.map underscored).flatMap String.utf8EncodeChar := by
  rw [escape]
  induction cs with
  | nil => rfl
  | cons c cs ih =>
    rw [List.flatMap_cons, List.flatMap_append, unescape_escapeChar, ih, List.map_cons,
      List.flatMap_cons]

theorem decode?_escape (cs : List Char) : decode? (escape cs) = some (cs.map underscored) :=
  decode?_eq_some (unescape_escape cs)

theorem escapeChar_underscored (c : Char) : escapeChar (underscored c) = escapeChar c := by
  by_cases hspace : c = ' '
  · rw [hspace]
    rfl
  · rw [underscored, if_neg hspace]

/-- An underscore and a space are escaped alike. -/
theorem escape_map_underscored (cs : List Char) : escape (cs.map underscored) = escape cs := by
  rw [escape, List.flatMap_map]
  exact List.flatMap_congr fun c _ => escapeChar_underscored c

theorem escape_append (as bs : List Char) : escape (as ++ bs) = escape as ++ escape bs :=
  List.flatMap_append

/-- Reading an escaped text back gives the text with an underscore for every space. So texts are
escaped alike exactly if they agree up to spaces and underscores; and a text can be escaped part by
part. -/
theorem escape_faithful (s t : List Char) :
    decode? (escape t) = some (t.map fun c => if c = ' ' then '_' else c) ∧
    (escape s = escape t ↔
      (s.map fun c => if c = ' ' then '_' else c) = t.map fun c => if c = ' ' then '_' else c) ∧
    escape (s ++ t) = escape s ++ escape t := by
  refine ⟨decode?_escape t, ⟨fun h => ?_, fun h => ?_⟩, escape_append s t⟩
  · have hs := decode?_escape s
    rw [h, decode?_escape t] at hs
    exact (Option.some.inj hs).symm
  · calc escape s = escape (s.map underscored) := (escape_map_underscored s).symm
      _ = escape (t.map underscored) := congrArg escape h
      _ = escape t := escape_map_underscored t

example : escape "a b%\u0085é".toList = "a_b%25%C2%85é".toList := by decide +kernel

/-! ## Whole escapes -/

/-- Every percent sign of the text has two of the given digits after it. -/
def WholeEscapes (digits cs : List Char) : Prop :=
  ∀ before after, cs = before ++ '%' :: after →
    ∃ hi ∈ digits, ∃ lo ∈ digits, [hi, lo] <+: after

namespace WholeEscapes

variable {digits as bs cs : List Char}

theorem of_not_mem (h : '%' ∉ cs) : WholeEscapes digits cs := by
  rintro before after rfl
  exact absurd (by simp) h

/-- A single escape is whole. -/
theorem of_digits {hi lo : Char} (hsign : '%' ∉ digits) (hhi : hi ∈ digits) (hlo : lo ∈ digits) :
    WholeEscapes digits ['%', hi, lo] := by
  have hrest : '%' ∉ [hi, lo] := by
    simp only [List.mem_cons, List.not_mem_nil, or_false, not_or]
    exact ⟨fun h => hsign (h ▸ hhi), fun h => hsign (h ▸ hlo)⟩
  intro before after h
  cases before with
  | nil =>
    obtain ⟨-, rfl⟩ := List.cons.inj h
    exact ⟨hi, hhi, lo, hlo, List.prefix_rfl⟩
  | cons c before =>
    obtain ⟨-, hsplit⟩ := List.cons.inj h
    exact absurd (hsplit ▸ by simp) hrest

theorem append (ha : WholeEscapes digits as) (hb : WholeEscapes digits bs) :
    WholeEscapes digits (as ++ bs) := by
  intro before after h
  rcases List.append_eq_append_iff.mp h with ⟨ds, rfl, hds⟩ | ⟨ds, has, hds⟩
  · exact hb ds after hds
  · cases ds with
    | nil => exact hb [] after hds.symm
    | cons d ds =>
      -- the escape lies in the first text, and is followed by the rest of both
      obtain ⟨rfl, rfl⟩ := List.cons.inj hds
      obtain ⟨hi, hhi, lo, hlo, hpre⟩ := ha before ds has
      exact ⟨hi, hhi, lo, hlo, hpre.trans (List.prefix_append ds bs)⟩

theorem flatMap {α : Type} {f : α → List Char} {l : List α}
    (h : ∀ a ∈ l, WholeEscapes digits (f a)) : WholeEscapes digits (l.flatMap f) := by
  induction l with
  | nil => exact of_not_mem List.not_mem_nil
  | cons a l ih =>
    rw [List.forall_mem_cons] at h
    exact h.1.append (ih h.2)

theorem of_suffix (h : WholeEscapes digits cs) (hbs : bs <:+ cs) : WholeEscapes digits bs := by
  obtain ⟨as, rfl⟩ := hbs
  rintro before after rfl
  exact h (as ++ before) after (List.append_assoc ..).symm

/-- A text with whole escapes has no percent sign in its last two places. -/
theorem not_mem_rtake (h : WholeEscapes digits cs) : '%' ∉ cs.rtake 2 := by
  intro hmem
  obtain ⟨before, after, hsplit⟩ := List.append_of_mem hmem
  have hwhole : WholeEscapes digits (cs.rtake 2) := h.of_suffix (List.drop_suffix _ cs)
  obtain ⟨hi, -, lo, -, hpre⟩ := hwhole before after hsplit
  -- the sign and its digits are three characters, but these are two
  have hafter : 2 ≤ after.length := hpre.length_le
  have hlast : (cs.rtake 2).length ≤ 2 := by
    rw [List.rtake, List.length_drop]
    omega
  rw [hsplit, List.length_append, List.length_cons] at hlast
  omega

/-- Where a text with whole escapes is cut in two, its first part has whole escapes if no percent
sign stands in the last two places before the cut. -/
theorem of_append_left (h : WholeEscapes digits (as ++ bs)) (hlast : '%' ∉ as.rtake 2) :
    WholeEscapes digits as := by
  rintro before after rfl
  obtain ⟨hi, hhi, lo, hlo, hpre⟩ :=
    h before (after ++ bs) (by rw [List.append_assoc, List.cons_append])
  -- the digits lie before the cut, or else the sign would be too close to it
  have hafter : 2 ≤ after.length := by
    by_contra hshort
    refine hlast ?_
    rw [List.rtake, List.drop_append_of_le_length (by simp; omega)]
    simp
  exact ⟨hi, hhi, lo, hlo,
    List.prefix_of_prefix_length_le hpre (List.prefix_append after bs) hafter⟩

end WholeEscapes

/-! ## Escaped text -/

/-- The digits of an escape. -/
def capitalHexDigits : List Char := "0123456789ABCDEF".toList

/-- The space and the printable characters that a URI has no place for. -/
def barredSigns : List Char :=
  [' ', '"', '\\', '#', '<', '>', '[', ']', '^', '\x60', '\x7b', '|', '\x7d']

/-- The characters that a URI has no place for: these signs and the control characters. -/
def Barred (c : Char) : Prop :=
  c.toNat ≤ 0x1F ∨ 0x7F ≤ c.toNat ∧ c.toNat ≤ 0x9F ∨ c ∈ barredSigns

instance (c : Char) : Decidable (Barred c) :=
  inferInstanceAs (Decidable (_ ∨ _))

/-- Text as it may stand inside a URI. -/
structure WellEscaped (cs : List Char) : Prop where
  /-- There is a place for every character. -/
  clear : ∀ c ∈ cs, ¬Barred c
  /-- Every percent sign begins an escape. -/
  whole : WholeEscapes capitalHexDigits cs

namespace WellEscaped

variable {as bs cs : List Char}

theorem append (ha : WellEscaped as) (hb : WellEscaped bs) : WellEscaped (as ++ bs) :=
  ⟨List.forall_mem_append.mpr ⟨ha.clear, hb.clear⟩, ha.whole.append hb.whole⟩

theorem of_suffix (h : WellEscaped cs) (hbs : bs <:+ cs) : WellEscaped bs :=
  ⟨fun c hc => h.clear c (hbs.subset hc), h.whole.of_suffix hbs⟩

end WellEscaped

theorem hexDigit_mem : ∀ n < 16, hexDigit n ∈ capitalHexDigits := by
  decide

theorem percentByte_eq (b : UInt8) :
    ∃ hi ∈ capitalHexDigits, ∃ lo ∈ capitalHexDigits, percentByte b = ['%', hi, lo] := by
  have hb := b.toNat_lt
  exact ⟨_, hexDigit_mem _ (by omega), _, hexDigit_mem _ (by omega), rfl⟩

/-- Every percent sign in escaped text begins an escape. -/
theorem wholeEscapes_escape (cs : List Char) : WholeEscapes capitalHexDigits (escape cs) := by
  refine .flatMap fun c _ => ?_
  rcases escapeChar_cases c with ⟨-, h⟩ | ⟨-, h⟩ | ⟨⟨-, hmust⟩, h⟩
  · rw [h]
    exact .of_not_mem (by decide)
  · rw [h]
    refine .flatMap fun b _ => ?_
    obtain ⟨hi, hhi, lo, hlo, hb⟩ := percentByte_eq b
    rw [hb]
    exact .of_digits (by decide) hhi hlo
  · rw [h]
    refine .of_not_mem fun hmem => hmust ?_
    rw [← List.mem_singleton.mp hmem]
    decide

/-- The characters of escaped text are underscores for spaces, those of escapes, and characters of
the text that need no escape. -/
theorem mem_escape {c : Char} {cs : List Char} (h : c ∈ escape cs) :
    c = '_' ∧ ' ' ∈ cs ∨ c = '%' ∨ c ∈ capitalHexDigits ∨ c ∈ cs ∧ c ≠ ' ' ∧ ¬mustEscape c := by
  obtain ⟨d, hd, hc⟩ := List.mem_flatMap.mp h
  rcases escapeChar_cases d with ⟨rfl, h⟩ | ⟨-, h⟩ | ⟨⟨hspace, hmust⟩, h⟩
  · rw [h] at hc
    exact .inl ⟨List.mem_singleton.mp hc, hd⟩
  · rw [h] at hc
    obtain ⟨b, -, hb⟩ := List.mem_flatMap.mp hc
    obtain ⟨hi, hhi, lo, hlo, hbyte⟩ := percentByte_eq b
    simp only [hbyte, List.mem_cons, List.not_mem_nil, or_false] at hb
    rcases hb with rfl | rfl | rfl
    · exact .inr (.inl rfl)
    · exact .inr (.inr (.inl hhi))
    · exact .inr (.inr (.inl hlo))
  · rw [h] at hc
    rw [List.mem_singleton.mp hc]
    exact .inr (.inr (.inr ⟨hd, hspace, hmust⟩))

theorem not_barred_of_mem_capitalHexDigits : ∀ c ∈ capitalHexDigits, ¬Barred c :=
  List.all_iff_forall_prop.mp (by decide)

theorem mustEscape_of_barred {c : Char} (h : Barred c) (hspace : c ≠ ' ') : mustEscape c := by
  rcases h with hlow | hhigh | hmem
  · simp only [mustEscape, isControl, Bool.or_eq_true, decide_eq_true_eq]
    omega
  · simp only [mustEscape, isControl, Bool.or_eq_true, Bool.and_eq_true, decide_eq_true_eq]
    omega
  · have hsigns : ∀ d ∈ barredSigns, d = ' ' ∨ mustEscape d :=
      List.all_iff_forall_prop.mp (by decide)
    exact (hsigns c hmem).resolve_left hspace

/-- Escaped text may stand inside a URI. -/
theorem wellEscaped_escape (cs : List Char) : WellEscaped (escape cs) := by
  refine ⟨fun c hc => ?_, wholeEscapes_escape cs⟩
  rcases mem_escape hc with ⟨rfl, -⟩ | rfl | hdigit | ⟨-, hspace, hmust⟩
  · decide
  · decide
  · exact not_barred_of_mem_capitalHexDigits c hdigit
  · exact fun hbarred => hmust (mustEscape_of_barred hbarred hspace)

end MarkupForest.Uri
