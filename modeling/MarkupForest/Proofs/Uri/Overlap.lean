import MarkupForest.Proofs.Lists
import MarkupForest.Uri.Overlap
import Mathlib.Data.String.Basic

/-!
# The overlap that is left out of a text

The words that a base URI ends in are left out of the text that is added to it. Which characters
these are is said here without a search: a tail of the base overlaps the text if it starts at the
last word of the base or before, but not with the base itself, and if the text goes on after it.
The characters left out are those of the shortest tail that overlaps.

A text is stored as bytes, and so the search can also be written as a loop that walks back through
the base by index and cuts the text at a byte offset. Every operation of this loop that needs an
index in range fails outside it; the loop never fails, and gives the same text.

## Main definitions

* `LastSeparator`: the index of the last separator of a base;
* `Overlap`: the lengths of the tails of a base with which a text begins;
* `cutOverlap?`: the loop over indices and byte offsets.

## Main results

* `mem_overlapLengths_iff`: the lengths that are tried, by the last separator;
* `overlap_iff`: the overlaps are the lengths at which the search can stop;
* `fromByte?_charOffset`: a text can be cut where one of its characters starts;
* `cutFrom?_eq`: what the loop gives, from any index of the base on;
* `dropOverlap_eq_drop_least`: the overlap that is left out is the least one.
-/

namespace MarkupForest.Uri

/-! ## The last separator -/

theorem isSeparator_iff {c : Char} : isSeparator c ↔ c = '_' ∨ c = '/' := by
  simp [isSeparator]

/-- The last separator of a base has the index `s`. -/
structure LastSeparator (base : List Char) (s : Nat) : Prop where
  /-- There is a separator at the index. -/
  separator : ∃ c, base[s]? = some c ∧ (c = '_' ∨ c = '/')
  /-- There is none after it. -/
  word : ∀ t c, s < t → base[t]? = some c → ¬(c = '_' ∨ c = '/')

/-- The index of the last separator of a base, if it has one. -/
def lastSeparator? : List Char → Option Nat
  | [] => none
  | c :: cs =>
    match lastSeparator? cs with
    | some s => some (s + 1)
    | none => if isSeparator c then some 0 else none

theorem lastSeparator?_eq_none {base : List Char} (h : lastSeparator? base = none) :
    ∀ c ∈ base, ¬isSeparator c := by
  induction base with
  | nil => simp
  | cons c cs ih =>
    rw [lastSeparator?] at h
    split at h
    next => contradiction
    next hcs =>
      split at h
      next => contradiction
      next hc => exact List.forall_mem_cons.mpr ⟨hc, ih hcs⟩

theorem lastSeparator?_eq_some {base : List Char} {s : Nat} (h : lastSeparator? base = some s) :
    LastSeparator base s := by
  induction base generalizing s with
  | nil => contradiction
  | cons c cs ih =>
    rw [lastSeparator?] at h
    split at h
    next s' hs' =>
      -- the last separator of the rest is the last one of all
      obtain rfl : s' + 1 = s := Option.some.inj h
      obtain ⟨hsep, hword⟩ := ih hs'
      refine ⟨hsep, fun t d hst hd => ?_⟩
      obtain ⟨u, rfl⟩ : ∃ u, t = u + 1 := ⟨t - 1, by omega⟩
      exact hword u d (by omega) hd
    next hnone =>
      split at h
      next hc =>
        obtain rfl : 0 = s := Option.some.inj h
        refine ⟨⟨c, rfl, isSeparator_iff.mp hc⟩, fun t d hst hd => ?_⟩
        obtain ⟨u, rfl⟩ : ∃ u, t = u + 1 := ⟨t - 1, by omega⟩
        have hmem : d ∈ cs := List.mem_of_getElem? hd
        exact fun hd' => lastSeparator?_eq_none hnone d hmem (isSeparator_iff.mpr hd')
      next => contradiction

namespace LastSeparator

variable {base text : List Char} {s k : Nat}

theorem lt_length (h : LastSeparator base s) : s < base.length := by
  obtain ⟨c, hc, -⟩ := h.separator
  exact (List.getElem?_eq_some_iff.mp hc).1

theorem unique {t : Nat} (hs : LastSeparator base s) (ht : LastSeparator base t) : s = t := by
  obtain ⟨c, hc, hsep⟩ := hs.separator
  obtain ⟨d, hd, hsep'⟩ := ht.separator
  rcases lt_trichotomy s t with hlt | heq | hgt
  · exact absurd hsep' (hs.word t d hlt hd)
  · exact heq
  · exact absurd hsep (ht.word s c hgt hc)

theorem any_isSeparator (h : LastSeparator base s) : base.any isSeparator := by
  obtain ⟨c, hc, hsep⟩ := h.separator
  exact List.any_eq_true.mpr ⟨c, List.mem_of_getElem? hc, isSeparator_iff.mpr hsep⟩

/-- The last word is what stands after the last separator. -/
theorem length_lastWord (h : LastSeparator base s) :
    (base.reverse.takeWhile fun c => !isSeparator c).length = base.length - (s + 1) := by
  obtain ⟨c, hc, hsep⟩ := h.separator
  have hlt := h.lt_length
  have hbase : base = base.take s ++ c :: base.drop (s + 1) := by
    rw [← (List.getElem?_eq_some_iff.mp hc).2, ← List.drop_eq_getElem_cons hlt,
      List.take_append_drop]
  have hword : ∀ d ∈ (base.drop (s + 1)).reverse, (!isSeparator d) = true := by
    intro d hd
    obtain ⟨t, ht⟩ := List.mem_iff_getElem?.mp (List.mem_reverse.mp hd)
    rw [List.getElem?_drop] at ht
    have hd := h.word _ d (by omega) ht
    rw [← isSeparator_iff] at hd
    simpa using hd
  have hstop : (!isSeparator c) = false := by
    simpa using isSeparator_iff.mpr hsep
  -- read from its end, the base starts with the last word, and the separator stops the reading
  calc (base.reverse.takeWhile fun c => !isSeparator c).length
      = ((base.drop (s + 1)).reverse ++
          (c :: (base.take s).reverse).takeWhile fun c => !isSeparator c).length := by
        conv_lhs => rw [hbase]
        rw [List.reverse_append, List.reverse_cons, List.append_assoc, List.singleton_append,
          List.takeWhile_append_of_pos hword]
    _ = base.length - (s + 1) := by simp [hstop]

theorem overlapLengths_eq (h : LastSeparator base s) :
    overlapLengths base text =
      List.range' (base.length - (s + 1))
        (min base.length text.length - (base.length - (s + 1))) := by
  rw [overlapLengths, if_pos h.any_isSeparator, h.length_lastWord]

end LastSeparator

theorem overlapLengths_eq_nil {base : List Char} (h : ∀ c ∈ base, ¬isSeparator c)
    (text : List Char) : overlapLengths base text = [] := by
  rw [overlapLengths, if_neg]
  simpa using h

/-- A length is tried if the base has a separator, the tail of this length goes back to the last
word at least, and the base and the text are both longer. -/
theorem mem_overlapLengths_iff {base text : List Char} {k : Nat} :
    k ∈ overlapLengths base text ↔
      ∃ s, LastSeparator base s ∧ base.length ≤ s + 1 + k ∧ k < base.length ∧ k < text.length := by
  cases hs : lastSeparator? base with
  | none =>
    have hnone := lastSeparator?_eq_none hs
    rw [overlapLengths_eq_nil hnone]
    constructor
    · intro hk
      contradiction
    · rintro ⟨s, h, -⟩
      obtain ⟨c, hc, hsep⟩ := List.any_eq_true.mp h.any_isSeparator
      exact absurd hsep (hnone c hc)
  | some s =>
    have h := lastSeparator?_eq_some hs
    have hlt := h.lt_length
    rw [h.overlapLengths_eq, List.mem_range'_1]
    constructor
    · intro hk
      exact ⟨s, h, by omega⟩
    · rintro ⟨t, ht, hk⟩
      obtain rfl := h.unique ht
      omega

theorem pairwise_overlapLengths (base text : List Char) :
    (overlapLengths base text).Pairwise (· < ·) := by
  rw [overlapLengths]
  split
  next => exact List.pairwise_lt_range'
  next => exact List.Pairwise.nil

/-! ## Overlaps -/

/-- The last `k` characters of the base overlap the text: they start after the first character of
the base and no later than its last word, the text is longer, and it begins with them up to case,
that is, with characters that are the same or have the same lowercase form. -/
def Overlap (base text : List Char) (k : Nat) : Prop :=
  ∃ s i, LastSeparator base s ∧ 0 < i ∧ i ≤ s + 1 ∧
    (base.drop i).length = k ∧ k < text.length ∧
    List.Forall₂ (fun a b => a = b ∨ Text.lowercase a = Text.lowercase b)
      (base.drop i) (text.take k)

theorem sameLetter_iff {a b : Char} :
    Text.sameLetter a b ↔ a = b ∨ Text.lowercase a = Text.lowercase b := by
  rw [Text.sameLetter, Bool.or_eq_true, beq_iff_eq, beq_iff_eq]

theorem overlapsBy_iff {base text : List Char} {k : Nat} (hbase : k ≤ base.length)
    (htext : k ≤ text.length) :
    overlapsBy base text k ↔
      List.Forall₂ (fun a b => a = b ∨ Text.lowercase a = Text.lowercase b)
        (base.drop (base.length - k)) (text.take k) := by
  have hlength : (base.drop (base.length - k)).length = k := by simp; omega
  have hzip : (base.drop (base.length - k)).zip text =
      (base.drop (base.length - k)).zip (text.take k) := by
    rw [List.zip_eq_zip_take_min, hlength, min_eq_left htext, List.take_of_length_le hlength.le]
  rw [overlapsBy, hzip, List.all_eq_true, List.forall₂_iff_zip]
  constructor
  · intro h
    exact ⟨by simp; omega, fun hab => sameLetter_iff.mp (h _ hab)⟩
  · rintro ⟨-, h⟩ ⟨a, b⟩ hab
    exact sameLetter_iff.mpr (h hab)

theorem overlap_iff {base text : List Char} {k : Nat} :
    Overlap base text k ↔ k ∈ overlapLengths base text ∧ overlapsBy base text k := by
  rw [mem_overlapLengths_iff]
  constructor
  · rintro ⟨s, i, hs, hpos, hi, rfl, hk, hsame⟩
    have hlt := hs.lt_length
    -- the start of a tail and its length determine each other
    have hi' : i = base.length - (base.drop i).length := by simp; omega
    refine ⟨⟨s, hs, ?_, ?_, hk⟩, ?_⟩
    · simp; omega
    · simp; omega
    · rw [overlapsBy_iff (by simp) hk.le, ← hi']
      exact hsame
  · rintro ⟨⟨s, hs, hle, hbase, hk⟩, hsame⟩
    rw [overlapsBy_iff hbase.le hk.le] at hsame
    exact ⟨s, base.length - k, hs, by omega, by omega, by simp; omega, hk, hsame⟩

theorem exists_dropOverlap_eq_drop (base text : List Char) :
    ∃ k, dropOverlap base text = text.drop k ∧
      (IsLeast {j | Overlap base text j} k ∨ k = 0 ∧ ∀ j, ¬Overlap base text j) := by
  simp only [overlap_iff]
  refine ⟨_, rfl, ?_⟩
  cases h : (overlapLengths base text).find? (overlapsBy base text) with
  | none =>
    right
    refine ⟨rfl, fun j hj => ?_⟩
    exact List.find?_eq_none.mp h j hj.1 hj.2
  | some k =>
    left
    exact isLeast_of_find?_eq_some (pairwise_overlapLengths base text) h

/-! ## Cutting a text at a byte offset -/

/-- The byte offsets at which the characters of a text start, if the first of them starts at
`offset`. -/
def charOffsets (offset : Nat) : List Char → List Nat
  | [] => []
  | c :: cs => offset :: charOffsets (offset + c.utf8Size) cs

/-- The byte offset at which the character of index `n` starts; the end of the text if there is no
such character. -/
def charOffset (text : String) (n : Nat) : Nat :=
  ((charOffsets 0 text.toList)[n]?).getD text.utf8ByteSize

/-- The text from a byte offset on. This fails past the end of the text and inside a character. -/
def fromByte? (text : String) (offset : Nat) : Option String :=
  if h : (String.Pos.Raw.mk offset).IsValid text then
    some (text.sliceFrom (text.pos ⟨offset⟩ h)).copy
  else none

theorem getElem?_charOffsets (offset : Nat) (cs : List Char) (n : Nat) :
    (charOffsets offset cs)[n]? =
      if n < cs.length then some (offset + String.utf8Len (cs.take n)) else none := by
  induction cs generalizing offset n with
  | nil => simp [charOffsets]
  | cons c cs ih =>
    cases n with
    | zero => simp [charOffsets]
    | succ n =>
      rw [charOffsets, List.getElem?_cons_succ, ih]
      simp [Nat.add_assoc, Nat.add_comm]

/-- A character starts after the bytes of the characters before it. -/
theorem charOffset_eq (text : String) (n : Nat) :
    charOffset text n = String.utf8Len (text.toList.take n) := by
  rw [charOffset, getElem?_charOffsets]
  split
  next => simp
  next hn => rw [Option.getD_none, List.take_of_length_le (by omega), String.utf8Len_toList]

/-- A text can be cut where one of its characters starts, and at its end. -/
theorem fromByte?_charOffset (text : String) (n : Nat) :
    fromByte? text (charOffset text n) = some (String.ofList (text.toList.drop n)) := by
  have hsplit : text =
      String.ofList (text.toList.take n) ++ String.ofList (text.toList.drop n) := by
    rw [← String.ofList_append, List.take_append_drop, String.ofList_toList]
  -- the offset is the end of the characters that are left out, so it falls between two characters
  have hend : String.Pos.Raw.mk (charOffset text n) =
      (String.ofList (text.toList.take n)).rawEndPos := by
    rw [charOffset_eq, String.rawEndPos_ofList]
  have hvalid : (String.Pos.Raw.mk (charOffset text n)).IsValid text :=
    String.Pos.Raw.isValid_iff_exists_append.mpr ⟨_, _, hsplit, hend⟩
  rw [fromByte?, dif_pos hvalid]
  have hcut : (text.pos ⟨charOffset text n⟩ hvalid).Splits _ _ := ⟨hsplit, hend⟩
  rw [hcut.eq_right (String.Pos.splits _)]

/-! ## The loop over indices and byte offsets -/

/-- Subtraction that fails where the result would be negative. -/
def sub? (a b : Nat) : Option Nat :=
  if b ≤ a then some (a - b) else none

/-- The characters from the index `i` on. This fails past the end. -/
def drop? (i : Nat) (cs : List Char) : Option (List Char) :=
  if i ≤ cs.length then some (cs.drop i) else none

/-- Tries the tails of the base that start at an index, then at the index before it, and so on down
to the second character. The text is cut after the first tail that it begins with; it stays whole
once the tail is as long as the text. -/
def cutFrom? (base : List Char) (text : String) : Nat → Option String
  | 0 => some text
  | start + 1 => do
    let length ← sub? base.length (start + 1)
    if length < text.length then
      let tail ← drop? (start + 1) base
      if (tail.zip text.toList).all fun (a, b) => Text.sameLetter a b then
        fromByte? text (charOffset text tail.length)
      else cutFrom? base text start
    else some text

/-- Cuts the overlap with a base off a text: the tails of the base are tried from its last word
on. -/
def cutOverlap? (base text : String) : Option String :=
  match lastSeparator? base.toList with
  | none => some text
  | some s => cutFrom? base.toList text (s + 1)

theorem cutFrom?_succ {base : List Char} {text : String} {start : Nat}
    (h : start + 1 ≤ base.length) :
    cutFrom? base text (start + 1) =
      if base.length - (start + 1) < text.length then
        if overlapsBy base text.toList (base.length - (start + 1)) then
          some (String.ofList (text.toList.drop (base.length - (start + 1))))
        else cutFrom? base text start
      else some text := by
  have hstart : base.length - (base.length - (start + 1)) = start + 1 := by omega
  rw [cutFrom?, sub?, if_pos h, drop?, if_pos h, overlapsBy, hstart]
  simp only [Option.bind_eq_bind, Option.bind_some, fromByte?_charOffset, List.length_drop]

/-- From an index of the base on, the loop does what the search through the lengths of the tails
does. -/
theorem cutFrom?_eq {base : List Char} {text : String} {start : Nat} (h : start ≤ base.length) :
    cutFrom? base text start =
      some (String.ofList (text.toList.drop
        (((List.range' (base.length - start)
          (min base.length text.toList.length - (base.length - start))).find?
            (overlapsBy base text.toList)).getD 0))) := by
  -- the tails grow as the index falls, so the lengths still to be tried are a shorter range
  induction start with
  | zero =>
    have hrange : min base.length text.toList.length - (base.length - 0) = 0 := by omega
    rw [cutFrom?, hrange]
    simp
  | succ start ih =>
    rw [cutFrom?_succ h, ← String.length_toList]
    split
    next hlt =>
      have hrange : min base.length text.toList.length - (base.length - (start + 1)) =
          min base.length text.toList.length - (base.length - start) + 1 := by omega
      have hnext : base.length - (start + 1) + 1 = base.length - start := by omega
      rw [hrange, List.range'_succ, hnext, List.find?_cons]
      split
      next hhit => simp [hhit]
      next hmiss =>
        -- the loop goes one index back, and the search one length further
        rw [Bool.eq_false_of_not_eq_true hmiss, ih (by omega)]
    next hge =>
      have hrange : min base.length text.toList.length - (base.length - (start + 1)) = 0 := by omega
      rw [hrange]
      simp

theorem cutOverlap?_eq (base text : String) :
    cutOverlap? base text = some (String.ofList (dropOverlap base.toList text.toList)) := by
  rw [cutOverlap?, dropOverlap]
  cases hs : lastSeparator? base.toList with
  | none =>
    rw [overlapLengths_eq_nil (lastSeparator?_eq_none hs)]
    simp
  | some s =>
    have h := lastSeparator?_eq_some hs
    rw [h.overlapLengths_eq]
    exact cutFrom?_eq h.lt_length

/-- The text that is left has lost the shortest tail of the base that overlaps it, and is the whole
text if none does, so above all if the base has no separator. It is the end of the text, and never
empty unless the text is. The loop over indices and byte offsets gives this text for every base and
text: no subtraction in it falls below zero, and every slice lies in range and between two
characters. -/
theorem dropOverlap_eq_drop_least (base text : String) :
    (∃ k, dropOverlap base.toList text.toList = text.toList.drop k ∧
      (IsLeast {j | Overlap base.toList text.toList j} k ∨
        k = 0 ∧ ∀ j, ¬Overlap base.toList text.toList j)) ∧
    ((∀ c ∈ base.toList, c ≠ '_' ∧ c ≠ '/') →
      dropOverlap base.toList text.toList = text.toList) ∧
    dropOverlap base.toList text.toList <:+ text.toList ∧
    (text ≠ "" → dropOverlap base.toList text.toList ≠ []) ∧
    cutOverlap? base text = some (String.ofList (dropOverlap base.toList text.toList)) := by
  obtain ⟨k, hdrop, hk⟩ := exists_dropOverlap_eq_drop base.toList text.toList
  refine ⟨⟨k, hdrop, hk⟩, ?_, ?_, ?_, cutOverlap?_eq base text⟩
  · intro hnone
    have hword : ∀ c ∈ base.toList, ¬isSeparator c := by
      intro c hc hsep
      rcases isSeparator_iff.mp hsep with h | h
      · exact (hnone c hc).1 h
      · exact (hnone c hc).2 h
    rw [dropOverlap, overlapLengths_eq_nil hword]
    rfl
  · rw [hdrop]
    exact List.drop_suffix k _
  · intro htext
    have hpos : 0 < text.toList.length :=
      List.length_pos_iff.mpr fun h => htext (String.toList_eq_nil_iff.mp h)
    have hlt : k < text.toList.length := by
      rcases hk with hleast | ⟨rfl, -⟩
      · obtain ⟨s, i, -, -, -, -, hlt, -⟩ := hleast.1
        exact hlt
      · exact hpos
    rw [hdrop, Ne, List.drop_eq_nil_iff]
    omega

/-- A surname is left out that the base has in capitals, with a letter of two bytes, but not the
underscore after it. -/
theorem dropOverlap_eq_drop_least_surname :
    IsLeast {j | Overlap "ex:/Erich_KÄSTNER".toList "kästner_emil".toList j} 7 ∧
    cutOverlap? "ex:/Erich_KÄSTNER" "kästner_emil" = some "_emil" := by
  obtain ⟨⟨k, hdrop, hk⟩, -, -, -, hcut⟩ :=
    dropOverlap_eq_drop_least "ex:/Erich_KÄSTNER" "kästner_emil"
  have hrest : dropOverlap "ex:/Erich_KÄSTNER".toList "kästner_emil".toList = "_emil".toList := by
    decide +kernel
  have hlength : ("kästner_emil".toList.drop k).length = 5 := by rw [← hdrop, hrest]; rfl
  have hlong : "kästner_emil".toList.length = 12 := by decide +kernel
  rw [List.length_drop, hlong] at hlength
  obtain rfl : k = 7 := by omega
  refine ⟨hk.resolve_right fun h => absurd h.1 (by decide), ?_⟩
  rw [hcut, hrest, String.ofList_toList]

end MarkupForest.Uri
