import MarkupForest.Proofs.Uri.Counting
import MarkupForest.Proofs.Uri.Escape
import MarkupForest.Proofs.Uri.Overlap

/-!
# Cutting escaped text

A slug is escaped before its overlap with the base is cut off, so the cut may fall on any character
of the escaped text. It still never tears an escape. A cut inside an escape would have the percent
sign of the escape in one of the last two places before it. The overlap is compared up to case, but
a percent sign agrees with itself alone; so the base would end in the same way.

## Main results

* `eq_of_agree`: signs and digits agree up to case with themselves only;
* `percent_not_mem_rtake_of_overlap`: the overlap ends like the base;
* `exists_wholeEscapes_cut`: what is cut off has whole escapes;
* `issue_keeps_escapes`: what an issuer adds to a base may stand inside a URI.
-/

namespace MarkupForest.Uri

/-! ## Characters without case -/

/-- No case mapping starts or ends before the capital letters, and all of them end at characters. -/
theorem caseRuns_bounds : ∀ r ∈ Text.caseRuns,
    0x41 ≤ r.first ∧ 0x41 ≤ r.first + r.shift ∧
      (r.last + r.shift < 0xD800 ∨ 0xE000 ≤ r.first + r.shift ∧ r.last + r.shift < 0x110000) := by
  decide +kernel

theorem lowercase_of_lt {c : Char} (hc : c.toNat < 0x41) : Text.lowercase c = [c] := by
  have hdotted : c ≠ 'İ' := by
    rintro rfl
    contradiction
  have hnone : Text.caseRuns.find? (·.covers c.toNat) = none := by
    refine List.find?_eq_none.mpr fun r hr hcovers => ?_
    have hfirst := (caseRuns_bounds r hr).1
    simp only [Text.CaseRun.covers, Bool.and_eq_true, decide_eq_true_eq] at hcovers
    omega
  rw [Text.lowercase, if_neg hdotted, hnone]

/-- No other character has one before the capital letters as its lowercase form. -/
theorem eq_of_lowercase_eq {a b : Char} (hb : b.toNat < 0x41) (h : Text.lowercase a = [b]) :
    a = b := by
  rw [Text.lowercase] at h
  split at h
  next =>
    -- the lowercase form has two characters
    simp at h
  next =>
    split at h
    next r hr =>
      obtain ⟨-, hlow, hvalid⟩ := caseRuns_bounds r (List.mem_of_find?_eq_some hr)
      have hcovers := List.find?_some hr
      simp only [Text.CaseRun.covers, Bool.and_eq_true, decide_eq_true_eq] at hcovers
      -- the run leads to a character, so its code is not lost, and the code is too great
      have hchar : (a.toNat + r.shift).toNat.isValidChar := by
        simp only [Nat.isValidChar]
        omega
      have hcode : b.toNat = (a.toNat + r.shift).toNat := by
        rw [← List.singleton_inj.mp h, Char.ofNat, dif_pos hchar]
        rfl
      omega
    next => exact List.singleton_inj.mp h

/-- Signs and digits agree up to case with themselves only. -/
theorem eq_of_agree {a b : Char} (hb : b.toNat < 0x41)
    (h : a = b ∨ Text.lowercase a = Text.lowercase b) : a = b := by
  rcases h with h | h
  · exact h
  · rw [lowercase_of_lt hb] at h
    exact eq_of_lowercase_eq hb h

/-! ## The end of the overlap -/

/-- If no percent sign stands in the last two places of the base, then none stands in the last two
places of the overlap. -/
theorem percent_not_mem_rtake_of_overlap {base text : List Char} {k : Nat}
    (hk : Overlap base text k) (hbase : '%' ∉ base.rtake 2) : '%' ∉ (text.take k).rtake 2 := by
  obtain ⟨s, i, -, -, -, -, -, hsame⟩ := hk
  intro hmem
  -- the sign has a partner in the same place of the base, and that is the sign itself
  obtain ⟨c, hc, hsign⟩ :=
    exists_mem_of_forall₂ (List.forall₂_drop ((text.take k).length - 2) hsame) hmem
  obtain rfl := eq_of_agree (by decide) hsign
  -- the last two places of a tail of the base are among those of the base
  have hstart : base.length - 2 ≤ i + ((text.take k).length - 2) := by
    have hlength := hsame.length_eq
    rw [List.length_drop] at hlength
    omega
  rw [List.drop_drop] at hc
  exact hbase ((List.drop_sublist_drop_left base hstart).subset hc)

/-- What is cut off a text with whole escapes has whole escapes. -/
theorem exists_wholeEscapes_cut {digits base cs : List Char} (hcs : WholeEscapes digits cs)
    (hbase : '%' ∉ base.rtake 2) :
    ∃ cut, cs = cut ++ dropOverlap base cs ∧ WholeEscapes digits cut := by
  obtain ⟨k, hdrop, hk⟩ := exists_dropOverlap_eq_drop base cs
  have hsplit : cs = cs.take k ++ cs.drop k := (List.take_append_drop k cs).symm
  rw [hdrop]
  refine ⟨cs.take k, hsplit, ?_⟩
  rcases hk with hleast | ⟨rfl, -⟩
  · rw [hsplit] at hcs
    exact hcs.of_append_left (percent_not_mem_rtake_of_overlap hleast.1 hbase)
  · exact .of_not_mem (by simp)

/-! ## What an issuer adds -/

theorem wellEscaped_separator : WellEscaped separator.toList :=
  ⟨List.all_iff_forall_prop.mp (by decide), .of_not_mem (by decide)⟩

theorem wellEscaped_toDigits (n : Nat) : WellEscaped (Nat.toDigits 10 n) := by
  have hdigit : ∀ c ∈ Nat.toDigits 10 n, c.isDigit := fun c hc =>
    Nat.isDigit_of_mem_toDigits (by decide) (by decide) hc
  refine ⟨fun c hc => ?_, .of_not_mem fun hsign => absurd (hdigit _ hsign) (by decide)⟩
  obtain ⟨hlow, hhigh⟩ := Char.isDigit_iff_toNat.mp (hdigit c hc)
  have hzero : '0'.toNat = 0x30 := rfl
  have hnine : '9'.toNat = 0x39 := rfl
  have hsigns : ∀ d ∈ barredSigns, d.isDigit = false := List.all_iff_forall_prop.mp (by decide)
  rintro (hcontrol | hcontrol | hmem)
  · omega
  · omega
  · simpa [hdigit c hc] using hsigns c hmem

theorem tail_suffix_slug (limit : Nat) (base text : String) :
    (tail limit base text).toList <:+ slug limit text.toList := by
  have hrest : dropOverlap base.toList (slug limit text.toList) <:+ slug limit text.toList :=
    List.drop_suffix ..
  rw [toList_tail]
  dsimp only
  split
  · exact (List.tail_suffix _).trans hrest
  · exact hrest

/-- What stands after the base in a URI: a tail, unless the text is empty, and a number. -/
theorem issue_eq (i : Issuer) (base text : String) :
    ∃ n, (i.issue base text).1 =
      base ++ ((if text = "" then "" else separator ++ tail i.limit base text) ++ separator ++
        String.ofList (Nat.toDigits 10 n)) := by
  refine ⟨((i.tally.add (stem i.limit base text)).count (stem i.limit base text)).toNat, ?_⟩
  by_cases htext : text = ""
  · simp [Issuer.issue, stem, htext, String.append_assoc]
  · have hempty : text.isEmpty = false := by simpa using htext
    simp [Issuer.issue, stem, htext, hempty, String.append_assoc]

/-- The hexadecimal digits in either case. -/
def hexDigits : List Char := "0123456789ABCDEFabcdef".toList

/-- A base whose escapes are whole has no percent sign in its last two places. For a base without
one there, what an issuer adds to the base has no character that a URI has no place for, and every
percent sign in it begins an escape. The cut that is made in the escaped text tears no escape: the
escapes in what is cut off are whole as well. -/
theorem issue_keeps_escapes (i : Issuer) (base text : String) :
    (WholeEscapes hexDigits base.toList → '%' ∉ base.toList.rtake 2) ∧
    ('%' ∉ base.toList.rtake 2 →
      (∃ added, (i.issue base text).1 = base ++ added ∧ (∀ c ∈ added.toList, ¬Barred c) ∧
        WholeEscapes capitalHexDigits added.toList) ∧
      ∃ cut, slug i.limit text.toList =
          cut ++ dropOverlap base.toList (slug i.limit text.toList) ∧
        WholeEscapes capitalHexDigits cut) := by
  refine ⟨WholeEscapes.not_mem_rtake, fun hbase => ⟨?_, ?_⟩⟩
  · obtain ⟨n, hissue⟩ := issue_eq i base text
    have htail : WellEscaped (tail i.limit base text).toList :=
      (wellEscaped_escape _).of_suffix (tail_suffix_slug i.limit base text)
    have hmiddle :
        WellEscaped (if text = "" then "" else separator ++ tail i.limit base text).toList := by
      split
      · exact ⟨by simp, .of_not_mem (by simp)⟩
      · rw [String.toList_append]
        exact wellEscaped_separator.append htail
    have hadded := (hmiddle.append wellEscaped_separator).append (wellEscaped_toDigits n)
    refine ⟨_, hissue, ?_⟩
    rw [String.toList_append, String.toList_append, String.toList_ofList]
    exact ⟨hadded.clear, hadded.whole⟩
  · exact exists_wholeEscapes_cut (wholeEscapes_escape _) hbase

/-- The cut falls between the two escapes of one character, and tears neither. -/
theorem issue_keeps_escapes_halfChar :
    WholeEscapes hexDigits "x/%c2".toList ∧ '%' ∉ "x/%c2".toList.rtake 2 ∧
    ((Issuer.ofSettings {}).issue "x/%c2" "\u0085b").1 = "x/%c2__%85b__1" ∧
    (∃ added, ((Issuer.ofSettings {}).issue "x/%c2" "\u0085b").1 = "x/%c2" ++ added ∧
      (∀ c ∈ added.toList, ¬Barred c) ∧ WholeEscapes capitalHexDigits added.toList) ∧
    ∃ cut, slug 50 "\u0085b".toList =
        cut ++ dropOverlap "x/%c2".toList (slug 50 "\u0085b".toList) ∧
      WholeEscapes capitalHexDigits cut := by
  have hfront : WholeEscapes hexDigits ['x', '/'] := .of_not_mem (by decide)
  have hwhole : WholeEscapes hexDigits "x/%c2".toList :=
    hfront.append (.of_digits (by decide) (by decide) (by decide))
  obtain ⟨hlast, hadd⟩ := issue_keeps_escapes (Issuer.ofSettings {}) "x/%c2" "\u0085b"
  obtain ⟨hadded, hcut⟩ := hadd (hlast hwhole)
  exact ⟨hwhole, hlast hwhole, by decide +kernel, hadded, hcut⟩

/-- A base that ends inside an escape tears the escape with which a text begins. -/
example : dropOverlap "x/%".toList (slug 50 "#b".toList) = "23b".toList := by
  decide +kernel

end MarkupForest.Uri
