import MarkupForest.Proofs.Uri.Run
import MarkupForest.Proofs.Uri.Tag

/-!
# Apostrophes in slugs

Emphasis is dropped first on the way to a slug, so of the apostrophes of a text only those that
stand alone are left, and no two of them are neighbours then. Tags and punctuation are dropped
later. Where nothing else stands between two lone apostrophes, these come to stand next to each
other after all, and the slug has two in a row, though the text has no emphasis there.

To see when this happens, two apostrophes of a slug are followed back through the steps, from the
last to the first. Escaping and tidying change nothing between them, punctuation may have stood
there, tags as well, and marks of emphasis before that. Each step can be done part by part with the
text taken apart at an apostrophe that it keeps, and keeps no others.

## Main definitions

* `withGaps`: a text with spaces for gaps, as it is before its tags are dropped;
* `unmarked`: a text without emphasis and tags;
* `Meet`: two apostrophes with nothing between them that is kept.

## Main results

* `doubled_tidySpace` and `doubled_escape`: the last steps bring no two apostrophes together;
* `unmarked_eq_append_cons_iff`: which apostrophes are kept when emphasis and tags are dropped;
* `slug_quotes_apart_iff`: when no two apostrophes come together in the slugs of a text.
-/

namespace MarkupForest.Uri

open scoped List

variable {cs : List Char}

/-! ## Doubled characters -/

theorem doubled_cons_of_ne {a c : Char} (h : a ≠ c) : [c, c] <:+: a :: cs ↔ [c, c] <:+: cs := by
  rw [List.infix_cons_iff, List.cons_prefix_cons, or_iff_right]
  exact fun hpre => h hpre.1.symm

theorem doubled_reverse {c : Char} : [c, c] <:+: cs.reverse ↔ [c, c] <:+: cs :=
  @List.reverse_infix _ [c, c] cs

theorem doubled_dropWhile {c : Char} (hc : ¬isBlank c) :
    [c, c] <:+: cs.dropWhile isBlank ↔ [c, c] <:+: cs := by
  induction cs with
  | nil => rfl
  | cons a cs ih =>
    rw [List.dropWhile_cons]
    split_ifs with ha
    · have hac : a ≠ c := fun h => hc (h ▸ ha)
      rw [ih, doubled_cons_of_ne hac]
    · rfl

/-- What comes first stays the same, unless it is a blank. -/
theorem prefix_collapseBlanks {c : Char} (hc : ¬isBlank c) :
    [c] <+: collapseBlanks false cs ↔ [c] <+: cs := by
  cases cs with
  | nil => rfl
  | cons a cs =>
    rw [collapseBlanks, if_neg Bool.false_ne_true]
    split_ifs with ha
    · -- neither the blank nor the space for it is the character
      have hac : c ≠ a := fun h => hc (h ▸ ha)
      have hspace : c ≠ ' ' := ne_space_of_not_isBlank hc
      simp [List.cons_prefix_cons, hspace, hac]
    · simp [List.cons_prefix_cons]

theorem doubled_collapseBlanks {c : Char} (hc : ¬isBlank c) (blankBefore : Bool) :
    [c, c] <:+: collapseBlanks blankBefore cs ↔ [c, c] <:+: cs := by
  induction cs generalizing blankBefore with
  | nil => rfl
  | cons a cs ih =>
    rw [collapseBlanks]
    by_cases ha : isBlank a
    · have hac : a ≠ c := fun h => hc (h ▸ ha)
      rw [if_pos ha, doubled_cons_of_ne hac]
      split_ifs
      · exact ih true
      · rw [doubled_cons_of_ne (ne_space_of_not_isBlank hc).symm, ih]
    · rw [if_neg ha, List.infix_cons_iff, List.infix_cons_iff, ih, List.cons_prefix_cons,
        List.cons_prefix_cons, prefix_collapseBlanks hc]

/-- Tidying brings no two characters together that are no blanks, and takes none apart. -/
theorem doubled_tidySpace {c : Char} (hc : ¬isBlank c) :
    [c, c] <:+: tidySpace cs ↔ [c, c] <:+: cs := by
  rw [tidySpace, doubled_collapseBlanks hc, trimBlanks_eq, List.rdropWhile, doubled_reverse,
    doubled_dropWhile hc, doubled_reverse, doubled_dropWhile hc]

theorem doubled_escape : ['\x27', '\x27'] <:+: escape cs ↔ ['\x27', '\x27'] <:+: cs := by
  constructor
  · contrapose!
    rw [← isChain_iff_not_infix, ← isChain_iff_not_infix]
    intro h
    -- only an apostrophe is written as one, and a space before the text changes nothing
    have hescape : (' ' :: escape cs).IsChain fun a b => ¬(a = '\x27' ∧ b = '\x27') := by
      refine isChain_escape rfl (fun c _ hc => ?_) id (h.cons fun _ _ hspace => ?_)
      · exact not_mem_escapeChar (by decide) hc fun hunderscore => by cases hunderscore
      · cases hspace.1
    exact hescape.tail
  · rintro ⟨before, after, rfl⟩
    exact ⟨escape before, escape after, by simp only [escape_append]; rfl⟩

/-- A character meets itself where punctuation is dropped if nothing else was in between. -/
theorem doubled_filter_iff {c : Char} (hc : ¬isPunctuation c) :
    [c, c] <:+: cs.filter (!isPunctuation ·) ↔
      ∃ before between after, cs = before ++ c :: (between ++ c :: after) ∧
        between.all isPunctuation := by
  constructor
  · rintro ⟨xs, ys, h⟩
    -- the text is cut before the first of the two, behind it, and behind the second
    rw [List.append_assoc, eq_comm, List.filter_eq_append_iff] at h
    obtain ⟨before, rest, rfl, -, h⟩ := h
    obtain ⟨dropped, rest, rfl, -, -, h⟩ := List.filter_eq_cons_iff.mp h
    obtain ⟨between, after, rfl, hbetween, -, -⟩ := List.filter_eq_cons_iff.mp h
    exact ⟨before ++ dropped, between, after, by simp, by simpa using hbetween⟩
  · rintro ⟨before, between, after, rfl, hbetween⟩
    have hnil : between.filter (!isPunctuation ·) = [] := by
      simpa using hbetween
    refine ⟨before.filter (!isPunctuation ·), after.filter (!isPunctuation ·), ?_⟩
    simp [hnil, hc]

/-! ## Before the tags are dropped -/

/-- The space as it is written with a name, `&nbsp;`. -/
def namedSpace : List Char := ['&', 'n', 'b', 's', 'p', ';']

/-- A text with a space for every gap, whether it is a character or a space with a name. -/
def withGaps (cs : List Char) : List Char :=
  (plainSpaces cs).map fun c => if isGap c then ' ' else c

theorem withGaps_namedSpace (cs : List Char) : withGaps (namedSpace ++ cs) = ' ' :: withGaps cs :=
  rfl

theorem withGaps_cons {c : Char} (h : ¬namedSpace <+: c :: cs) :
    withGaps (c :: cs) = (if isGap c then ' ' else c) :: withGaps cs := by
  rw [withGaps, plainSpaces.eq_3]
  · rfl
  · rintro rest rfl rfl
    exact h ⟨rest, rfl⟩

/-- What holds of the empty text, and is kept by a named space or any other character put before a
text, holds of all texts. -/
theorem gap_induction {motive : List Char → Prop} (nil : motive [])
    (named : ∀ cs, motive cs → motive (namedSpace ++ cs))
    (char : ∀ c cs, ¬namedSpace <+: c :: cs → motive cs → motive (c :: cs)) (cs : List Char) :
    motive cs := by
  induction cs using plainSpaces.induct with
  | case1 => exact nil
  | case2 cs ih => exact named cs ih
  | case3 c cs hc ih =>
    refine char c cs ?_ ih
    rintro ⟨rest, hrest⟩
    obtain ⟨rfl, rfl⟩ := List.cons.inj hrest
    exact hc rest rfl rfl

theorem of_isGap {c : Char} (h : isGap c) : isBracket c = false ∧ isPunctuation c = false := by
  simp only [isGap, Bool.or_eq_true, beq_iff_eq] at h
  rcases h with (((((rfl | rfl) | rfl) | rfl) | rfl) | rfl) | rfl <;> decide

/-- A text without a given character in it does not reach behind this one. -/
theorem prefix_of_prefix_append_cons {l as bs : List Char} {c : Char} (hc : c ∉ l)
    (h : l <+: as ++ c :: bs) : l <+: as := by
  have has : as ++ [c] <+: as ++ c :: bs := ⟨bs, by simp⟩
  by_cases hlength : l.length ≤ as.length
  · exact List.prefix_of_prefix_length_le h (List.prefix_append ..) hlength
  · -- a longer one would have the character in it
    have hpre : as ++ [c] <+: l :=
      List.prefix_of_prefix_length_le has h (by rw [List.length_append]; exact not_le.mp hlength)
    exact absurd (hpre.subset (by simp)) hc

/-- Apostrophes belong to no gap, so the text can be taken apart at each of them. -/
theorem withGaps_append_cons (as bs : List Char) :
    withGaps (as ++ '\x27' :: bs) = withGaps as ++ '\x27' :: withGaps bs := by
  have hquote : '\x27' ∉ namedSpace := by decide
  induction as using gap_induction with
  | nil =>
    refine withGaps_cons fun h => ?_
    have hpre : namedSpace <+: [] := prefix_of_prefix_append_cons hquote h
    exact absurd hpre (by decide)
  | named as ih =>
    rw [List.append_assoc, withGaps_namedSpace, withGaps_namedSpace, ih, List.cons_append]
  | char c as hc ih =>
    have hc' : ¬namedSpace <+: c :: (as ++ '\x27' :: bs) := fun h =>
      hc (prefix_of_prefix_append_cons hquote h)
    rw [List.cons_append, withGaps_cons hc', withGaps_cons hc, ih, List.cons_append]

theorem exists_of_withGaps_eq {xs ys : List Char} (h : withGaps cs = xs ++ '\x27' :: ys) :
    ∃ as bs, cs = as ++ '\x27' :: bs ∧ withGaps as = xs ∧ withGaps bs = ys := by
  induction cs using gap_induction generalizing xs with
  | nil => simp [withGaps, plainSpaces] at h
  | named cs ih =>
    rw [withGaps_namedSpace] at h
    cases xs with
    | nil => simp at h
    | cons x xs =>
      obtain ⟨rfl, hrest⟩ := List.cons.inj h
      obtain ⟨as, bs, rfl, rfl, rfl⟩ := ih hrest
      exact ⟨namedSpace ++ as, bs, (List.append_assoc ..).symm, rfl, rfl⟩
  | char c cs hc ih =>
    rw [withGaps_cons hc] at h
    cases xs with
    | nil =>
      -- the apostrophe stands for itself, since a space is written for every gap
      obtain ⟨hquote, rfl⟩ := List.cons.inj h
      split_ifs at hquote
      · cases hquote
      · exact ⟨[], cs, by rw [hquote]; rfl, rfl, rfl⟩
    | cons x xs =>
      obtain ⟨rfl, hrest⟩ := List.cons.inj h
      obtain ⟨as, bs, rfl, rfl, rfl⟩ := ih hrest
      -- the part before it begins with no named space either
      refine ⟨c :: as, bs, rfl, withGaps_cons fun hpre => hc ?_, rfl⟩
      exact hpre.trans ⟨'\x27' :: bs, rfl⟩

theorem filter_isBracket_withGaps (cs : List Char) :
    (withGaps cs).filter isBracket = cs.filter isBracket := by
  induction cs using gap_induction with
  | nil => rfl
  | named cs ih => rw [withGaps_namedSpace, List.filter_append, ← ih]; rfl
  | char c cs hc ih =>
    rw [withGaps_cons hc, List.filter_cons, List.filter_cons, ih]
    by_cases hgap : isGap c
    · rw [if_pos hgap, (of_isGap hgap).1]
      rfl
    · rw [if_neg hgap]

theorem filter_isBracket_dropEmphasis (cs : List Char) :
    (dropEmphasis cs).filter isBracket = cs.filter isBracket := by
  have hquote : isBracket '\x27' = false := by decide
  suffices h : ∀ quoteBefore, (dropEmphasisAfter quoteBefore cs).filter isBracket =
      cs.filter isBracket from h false
  induction cs with
  | nil => exact fun _ => rfl
  | cons c cs ih =>
    intro quoteBefore
    rw [dropEmphasisAfter]
    split_ifs with hc <;> simp [List.filter_cons, hc, hquote, ih]

theorem contains_close_withGaps (cs : List Char) :
    (withGaps cs).contains '>' = cs.contains '>' := by
  rw [Bool.eq_iff_iff, List.contains_iff_mem, List.contains_iff_mem, ← close_mem_filter_isBracket,
    filter_isBracket_withGaps, close_mem_filter_isBracket]

/-- Gaps are no punctuation and no brackets, so it does not matter how they are written if only
punctuation is to be left. -/
theorem all_isPunctuation_dropTagsFrom_withGaps (inTag : Bool) (cs : List Char) :
    (dropTagsFrom inTag (withGaps cs)).all isPunctuation =
      (dropTagsFrom inTag cs).all isPunctuation := by
  have hspace : isPunctuation ' ' = false := by decide
  have hand : isPunctuation '&' = false := by decide
  induction cs using gap_induction generalizing inTag with
  | nil => rfl
  | named cs ih =>
    rw [withGaps_namedSpace]
    -- outside the tags both ways of writing leave something else than punctuation
    cases inTag with
    | false => simp [namedSpace, dropTagsFrom, hspace, hand]
    | true => simpa [namedSpace, dropTagsFrom] using ih true
  | char c cs hc ih =>
    rw [withGaps_cons hc, dropTagsFrom, dropTagsFrom]
    by_cases hgap : isGap c
    · obtain ⟨hbracket, hpunctuation⟩ := of_isGap hgap
      simp only [isBracket, Bool.or_eq_false_iff, beq_eq_false_iff_ne] at hbracket
      have hclose : (c != '>') = true := bne_iff_ne.mpr hbracket.2
      cases inTag with
      | false => simp [hgap, hbracket, hpunctuation, hspace]
      | true => simpa [hgap, hclose] using ih true
    · rw [if_neg hgap, contains_close_withGaps]
      split_ifs <;> simp [ih]

/-! ## Apostrophes that are kept -/

/-- What is left of a text without its emphasis and its tags, with spaces for gaps. -/
def unmarked (cs : List Char) : List Char :=
  dropTags (withGaps (dropEmphasis cs))

theorem plainWords_eq (cs : List Char) :
    plainWords cs = tidySpace ((unmarked cs).filter (!isPunctuation ·)) :=
  rfl

theorem outsideTags_withGaps_dropEmphasis {before after : List Char} :
    OutsideTags (withGaps (dropEmphasis before)) ('\x27' :: withGaps (dropEmphasis after)) ↔
      OutsideTags before ('\x27' :: after) := by
  have hquote : ¬isBracket '\x27' := by decide
  rw [← outsideTags_filter_isBracket, ← @outsideTags_filter_isBracket before]
  simp only [filter_isBracket_withGaps, filter_isBracket_dropEmphasis,
    List.filter_cons_of_neg hquote]

/-- An apostrophe is kept if and only if it stands alone and outside the tags. -/
theorem unmarked_eq_append_cons_iff {xs ys : List Char} :
    unmarked cs = xs ++ '\x27' :: ys ↔
      ∃ before after, cs = before ++ '\x27' :: after ∧ Lone before after ∧
        OutsideTags before ('\x27' :: after) ∧ unmarked before = xs ∧ unmarked after = ys := by
  constructor
  · intro h
    -- the apostrophe is followed back through the three steps
    obtain ⟨as, bs, hgaps, hplace, -, rfl, rfl⟩ := dropTags_eq_append_cons_iff.mp h
    obtain ⟨as, bs, hemphasis, rfl, rfl⟩ := exists_of_withGaps_eq hgaps
    obtain ⟨before, after, rfl, hlone, rfl, rfl⟩ := dropEmphasis_eq_append_cons_iff.mp hemphasis
    exact ⟨before, after, rfl, hlone, outsideTags_withGaps_dropEmphasis.mp hplace, rfl, rfl⟩
  · rintro ⟨before, after, rfl, hlone, hplace, rfl, rfl⟩
    rw [unmarked, hlone.dropEmphasis_append_cons, withGaps_append_cons,
      dropTags_eq_append_cons_iff]
    exact ⟨_, _, rfl, outsideTags_withGaps_dropEmphasis.mpr hplace, by simp, rfl, rfl⟩

/-! ## Apostrophes that meet -/

/-- Two apostrophes come together if what is between them is dropped. -/
structure Meet (before between after : List Char) : Prop where
  /-- The first one stands alone. -/
  first : Lone before (between ++ '\x27' :: after)
  /-- So does the second one. -/
  second : Lone between after
  /-- They stand outside the tags. -/
  outside : OutsideTags before ('\x27' :: (between ++ '\x27' :: after))
  /-- Marks of emphasis and tags apart, only punctuation is between them. -/
  bare : (dropTags (dropEmphasis between)).all isPunctuation

theorem doubled_plainWords_iff :
    ['\x27', '\x27'] <:+: plainWords cs ↔
      ∃ before between after, cs = before ++ '\x27' :: (between ++ '\x27' :: after) ∧
        Meet before between after := by
  rw [plainWords_eq, doubled_tidySpace (by decide), doubled_filter_iff (by decide)]
  constructor
  · rintro ⟨xs, ps, ys, hkept, hps⟩
    obtain ⟨before, rest, rfl, hfirst, hplace, -, hrest⟩ := unmarked_eq_append_cons_iff.mp hkept
    obtain ⟨between, after, rfl, hsecond, -, rfl, -⟩ := unmarked_eq_append_cons_iff.mp hrest
    rw [unmarked, dropTags, all_isPunctuation_dropTagsFrom_withGaps] at hps
    exact ⟨before, between, after, rfl, hfirst, hsecond, hplace, hps⟩
  · rintro ⟨before, between, after, rfl, h⟩
    have hbare : (unmarked between).all isPunctuation := by
      rw [unmarked, dropTags, all_isPunctuation_dropTagsFrom_withGaps]
      exact h.bare
    -- every tag that begins between the two is closed there, or its bracket would be left
    have hplace : OutsideTags between ('\x27' :: after) := by
      refine outsideTags_withGaps_dropEmphasis.mp (outsideTags_of_not_mem_dropTags ?_ _)
      intro hopen
      exact absurd (List.all_eq_true.mp hbare _ hopen) (by decide)
    have hrest := unmarked_eq_append_cons_iff.mpr ⟨between, after, rfl, h.second, hplace, rfl, rfl⟩
    have hkept := unmarked_eq_append_cons_iff.mpr ⟨before, _, rfl, h.first, h.outside, rfl, hrest⟩
    exact ⟨_, _, _, hkept, hbare⟩

theorem exists_doubled_slug_iff :
    (∃ limit, ['\x27', '\x27'] <:+: slug limit cs) ↔ ['\x27', '\x27'] <:+: plainWords cs := by
  simp only [slug, doubled_escape]
  constructor
  · rintro ⟨limit, h⟩
    exact h.trans (List.take_prefix limit _).isInfix
  · intro h
    exact ⟨(plainWords cs).length, by rwa [List.take_length]⟩

theorem slug_dropEmphasis (limit : Nat) (cs : List Char) :
    slug limit (dropEmphasis cs) = slug limit cs := by
  rw [slug, plainWords_eq, unmarked, dropEmphasis_eq_self_iff.mpr (not_doubled_dropEmphasis cs)]
  rfl

/-- Marks of emphasis leave no trace in a slug: it is that of the text without its runs of two or
more apostrophes. No slug of a text, however long, has two apostrophes in a row, unless the text has
two that stand alone, outside the tags, with nothing between them but marks of emphasis, tags and
punctuation; and then the slugs have, as soon as they are long enough. -/
theorem slug_quotes_apart_iff (cs : List Char) :
    (∀ limit, slug limit cs =
      slug limit ((runs (· == '\x27') cs).filter (!isEmphasis ·)).flatten) ∧
    ((∀ limit, ¬['\x27', '\x27'] <:+: slug limit cs) ↔
      ¬∃ before between after, cs = before ++ '\x27' :: (between ++ '\x27' :: after) ∧
        Meet before between after) := by
  constructor
  · intro limit
    rw [← dropEmphasis_eq_flatten_runs, slug_dropEmphasis]
  · rw [← doubled_plainWords_iff, ← exists_doubled_slug_iff, not_exists]

/-- Punctuation and tags keep apostrophes apart, until they are dropped. -/
theorem slug_quotes_meet :
    ['\x27', '\x27'] <:+: slug 50 "a\x27.\x27b".toList ∧
    ['\x27', '\x27'] <:+: slug 50 "\x27<br>\x27".toList :=
  ⟨⟨['a'], ['b'], by decide +kernel⟩, ⟨[], [], by decide +kernel⟩⟩

end MarkupForest.Uri
