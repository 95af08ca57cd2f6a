import MarkupForest.Proofs.Uri.Slug

/-!
# Cutting out tags

Tags are dropped character by character, with a mark that says whether the text is inside a tag.
Here this is compared with a scan that goes from tag to tag: it stops at each `<` with a later `>`,
cuts out everything up to the first such `>`, whatever other brackets stand in between, and goes on
behind it. The scan has one result for every text, and this is the text without its tags.

Taking out a tag brings together what stood around it, but no new tag comes about. A bracket that is
kept can belong to none: a `<` is kept only if no `>` comes later, also not behind a tag.

A place in a text is outside the tags if every `<` before it is closed before it, or not at all.
There the text can be taken apart, and the tags be dropped on both sides of the place; and what is
kept stands at such places only.

## Main definitions

* `TagsCut`: a text and what a scan from tag to tag keeps of it;
* `OutsideTags`: two parts of a text that meet at a place outside the tags.

## Main results

* `tagsCut_iff`: the scan keeps the text without its tags;
* `dropTags_eq_self_iff`: the texts that have no tag to drop;
* `dropTags_eq_append_cons_iff`: where a character that is kept has stood;
* `dropTags_cuts_tags`: dropping tags is complete, and drops nothing else.
-/

namespace MarkupForest.Uri

open scoped List

/-! ## The scan from tag to tag -/

/-- A scan of a text from left to right that cuts the tags out of it, and what it keeps. -/
inductive TagsCut : List Char → List Char → Prop
  /-- At the end of the text nothing is left to keep. -/
  | nil : TagsCut [] []
  /-- Outside the tags a character is kept unless it is a `<` with a later `>`. -/
  | keep {c : Char} {cs kept : List Char} (hc : ¬(c = '<' ∧ '>' ∈ cs)) (hcs : TagsCut cs kept) :
      TagsCut (c :: cs) (c :: kept)
  /-- A tag is cut out up to its first `>`, whatever else stands in it. -/
  | cut {inside cs kept : List Char} (hinside : '>' ∉ inside) (hcs : TagsCut cs kept) :
      TagsCut ('<' :: (inside ++ '>' :: cs)) kept

theorem dropTags_cons_of_not {c : Char} {cs : List Char} (hc : ¬(c = '<' ∧ '>' ∈ cs)) :
    dropTags (c :: cs) = c :: dropTags cs := by
  rw [dropTags, dropTagsFrom, if_neg Bool.false_ne_true, if_neg (by simpa using hc)]
  rfl

/-- Inside a tag, everything up to the first `>` goes. -/
theorem dropTagsFrom_inside {inside : List Char} (hinside : '>' ∉ inside) (cs : List Char) :
    dropTagsFrom true (inside ++ '>' :: cs) = dropTags cs := by
  induction inside with
  | nil => rfl
  | cons c inside ih =>
    rw [List.mem_cons, not_or] at hinside
    have hopen : (c != '>') = true := bne_iff_ne.mpr (Ne.symm hinside.1)
    rw [List.cons_append, dropTagsFrom, if_pos rfl, hopen]
    exact ih hinside.2

theorem dropTags_tag {inside : List Char} (hinside : '>' ∉ inside) (cs : List Char) :
    dropTags ('<' :: (inside ++ '>' :: cs)) = dropTags cs := by
  rw [dropTags, dropTagsFrom, if_neg Bool.false_ne_true, if_pos (by simp)]
  exact dropTagsFrom_inside hinside cs

/-- Every text can be scanned, and the scan keeps the text without its tags. -/
theorem tagsCut_dropTags (cs : List Char) : TagsCut cs (dropTags cs) := by
  match cs with
  | [] => exact .nil
  | c :: cs =>
    by_cases hc : c = '<' ∧ '>' ∈ cs
    · -- the tag ends at the first `>`, and the scan goes on behind it
      obtain ⟨rfl, hclose⟩ := hc
      obtain ⟨inside, rest, rfl, hinside⟩ := List.eq_append_cons_of_mem hclose
      rw [dropTags_tag hinside]
      exact .cut hinside (tagsCut_dropTags rest)
    · rw [dropTags_cons_of_not hc]
      exact .keep hc (tagsCut_dropTags cs)
termination_by cs.length

theorem TagsCut.eq_dropTags {cs kept : List Char} (h : TagsCut cs kept) : kept = dropTags cs := by
  induction h with
  | nil => rfl
  | keep hc _ ih => rw [dropTags_cons_of_not hc, ih]
  | cut hinside _ ih => rw [dropTags_tag hinside, ih]

theorem tagsCut_iff {cs kept : List Char} : TagsCut cs kept ↔ kept = dropTags cs := by
  constructor
  · exact TagsCut.eq_dropTags
  · rintro rfl
    exact tagsCut_dropTags cs

/-! ## Texts without tags -/

theorem not_hasTag_dropTags (cs : List Char) : ¬HasTag (dropTags cs) :=
  not_hasTag_dropTagsFrom false cs

theorem dropTags_eq_self_iff {cs : List Char} : dropTags cs = cs ↔ ¬HasTag cs := by
  constructor
  · intro h
    rw [← h]
    exact not_hasTag_dropTags cs
  · intro h
    induction cs with
    | nil => rfl
    | cons c cs ih =>
      have hc : ¬(c = '<' ∧ '>' ∈ cs) := by
        rintro ⟨rfl, hclose⟩
        exact h ((List.singleton_sublist.mpr hclose).cons_cons '<')
      rw [dropTags_cons_of_not hc, ih fun htag => h (htag.of_sublist (List.sublist_cons_self c cs))]

/-- Dropping tags is complete and minimal. No `<` with a later `>` is left; a text without one stays
as it is, and no other text does; so nothing is left for a second time. What goes are the tags that
a scan from left to right cuts out, each from a `<` outside the others up to the next `>`, and
nothing else. -/
theorem dropTags_cuts_tags (cs : List Char) :
    ¬HasTag (dropTags cs) ∧
    (dropTags cs = cs ↔ ¬HasTag cs) ∧
    dropTags (dropTags cs) = dropTags cs ∧
    ∀ kept, TagsCut cs kept ↔ kept = dropTags cs := by
  refine ⟨not_hasTag_dropTags cs, dropTags_eq_self_iff, ?_, fun kept => tagsCut_iff⟩
  exact dropTags_eq_self_iff.mpr (not_hasTag_dropTags cs)

-- the first `>` ends a tag, also one with another `<` in it, and a `<` that is never closed stays
example : dropTags "a>b<<i>c>d<".toList = "a>bc>d<".toList := by decide +kernel

/-! ## Places outside the tags -/

/-- The place where two parts of a text meet is in no tag: every `<` before it is closed before it,
or not at all. -/
def OutsideTags (before after : List Char) : Prop :=
  ∀ start rest, before = start ++ '<' :: rest → '>' ∈ rest ∨ '>' ∉ after

theorem outsideTags_nil (after : List Char) : OutsideTags [] after := by
  intro start rest h
  simp at h

theorem outsideTags_cons {c : Char} {before after : List Char} :
    OutsideTags (c :: before) after ↔
      (c = '<' → '>' ∈ before ∨ '>' ∉ after) ∧ OutsideTags before after := by
  constructor
  · intro h
    refine ⟨?_, fun start rest hsplit => h (c :: start) rest (by rw [hsplit]; rfl)⟩
    rintro rfl
    exact h [] before rfl
  · rintro ⟨hc, h⟩ start rest hsplit
    cases start with
    | nil =>
      obtain ⟨rfl, rfl⟩ := List.cons.inj hsplit
      exact hc rfl
    | cons d start => exact h start rest (List.cons.inj hsplit).2

/-- Behind a `>` it does not matter what stands before that. -/
theorem outsideTags_append_close {tag before after : List Char} :
    OutsideTags (tag ++ '>' :: before) after ↔ OutsideTags before after := by
  induction tag with
  | nil => simp [outsideTags_cons]
  | cons c tag ih => simp [outsideTags_cons, ih]

/-- Whether a character is one of the brackets of a tag. -/
def isBracket (c : Char) : Bool :=
  c == '<' || c == '>'

theorem close_mem_filter_isBracket {cs : List Char} : '>' ∈ cs.filter isBracket ↔ '>' ∈ cs := by
  rw [List.mem_filter, and_iff_left (by decide)]

theorem outsideTags_filter_isBracket {before after : List Char} :
    OutsideTags (before.filter isBracket) (after.filter isBracket) ↔ OutsideTags before after := by
  induction before with
  | nil => exact iff_of_true (outsideTags_nil _) (outsideTags_nil _)
  | cons c before ih =>
    by_cases hc : isBracket c
    · rw [List.filter_cons_of_pos hc]
      simp only [outsideTags_cons, close_mem_filter_isBracket, ih]
    · have hopen : c ≠ '<' := by
        rintro rfl
        exact hc (by decide)
      rw [List.filter_cons_of_neg hc, ih, outsideTags_cons]
      exact (and_iff_right fun h => absurd h hopen).symm

/-- If all brackets before a place are in tags, then the place is in none. -/
theorem outsideTags_of_not_mem_dropTags {before : List Char} (h : '<' ∉ dropTags before)
    (after : List Char) : OutsideTags before after := by
  have hscan := tagsCut_dropTags before
  generalize dropTags before = kept at h hscan
  induction hscan with
  | nil => exact outsideTags_nil after
  | keep _ _ ih =>
    -- the character is kept, so it is no `<`
    rw [List.mem_cons, not_or] at h
    exact outsideTags_cons.mpr ⟨fun hc => absurd hc.symm h.1, ih h.2⟩
  | cut _ _ ih => exact (@outsideTags_append_close ('<' :: _) _ _).mpr (ih h)

/-- At a place outside the tags a text can be taken apart. -/
theorem TagsCut.append_cons {before after kept kept' : List Char} {c : Char}
    (hbefore : TagsCut before kept) (hafter : TagsCut after kept')
    (hplace : OutsideTags before (c :: after)) (hc : ¬(c = '<' ∧ '>' ∈ after)) :
    TagsCut (before ++ c :: after) (kept ++ c :: kept') := by
  induction hbefore with
  | nil => exact .keep hc hafter
  | keep hd _ ih =>
    obtain ⟨hclosed, hplace⟩ := outsideTags_cons.mp hplace
    refine .keep ?_ (ih hplace)
    -- a `<` that no `>` follows in the first part is not closed in the second one either
    rintro ⟨rfl, hclose⟩
    rcases List.mem_append.mp hclose with hclose | hclose
    · exact hd ⟨rfl, hclose⟩
    · exact (hclosed rfl).elim (fun h => hd ⟨rfl, h⟩) fun h => h hclose
  | @cut inside cs kept hinside hcs ih =>
    have hplace' := (@outsideTags_append_close ('<' :: inside) _ _).mp hplace
    simpa using TagsCut.cut hinside (ih hplace')

/-- A character that a scan keeps stands at a place outside the tags. -/
theorem TagsCut.exists_append_cons {cs xs ys : List Char} {c : Char}
    (h : TagsCut cs (xs ++ c :: ys)) :
    ∃ before after, cs = before ++ c :: after ∧ OutsideTags before (c :: after) ∧
      ¬(c = '<' ∧ '>' ∈ after) ∧ TagsCut before xs ∧ TagsCut after ys := by
  generalize hkept : xs ++ c :: ys = kept at h
  induction h generalizing xs with
  | nil => simp at hkept
  | @keep d cs kept hd hcs ih =>
    cases xs with
    | nil =>
      obtain ⟨rfl, rfl⟩ := List.cons.inj hkept
      exact ⟨[], cs, rfl, outsideTags_nil _, hd, .nil, hcs⟩
    | cons x xs =>
      obtain ⟨rfl, hrest⟩ := List.cons.inj hkept
      obtain ⟨before, after, rfl, hplace, hc, hxs, hys⟩ := ih hrest
      -- a character that comes first is no `<` that is closed before or after the place
      rw [List.mem_append] at hd
      refine ⟨x :: before, after, rfl, outsideTags_cons.mpr ⟨?_, hplace⟩, hc, .keep ?_ hxs, hys⟩
      · exact fun hx => .inr fun hclose => hd ⟨hx, .inr hclose⟩
      · exact fun hx => hd ⟨hx.1, .inl hx.2⟩
  | @cut inside cs kept hinside hcs ih =>
    -- a tag that is cut out goes to the part before the place, and it is closed there
    obtain ⟨before, after, rfl, hplace, hc, hxs, hys⟩ := ih hkept
    refine ⟨'<' :: (inside ++ '>' :: before), after, by simp, ?_, hc, .cut hinside hxs, hys⟩
    exact (@outsideTags_append_close ('<' :: inside) _ _).mpr hplace

theorem dropTags_eq_append_cons_iff {cs xs ys : List Char} {c : Char} :
    dropTags cs = xs ++ c :: ys ↔
      ∃ before after, cs = before ++ c :: after ∧ OutsideTags before (c :: after) ∧
        ¬(c = '<' ∧ '>' ∈ after) ∧ dropTags before = xs ∧ dropTags after = ys := by
  constructor
  · intro h
    have hscan := tagsCut_dropTags cs
    rw [h] at hscan
    obtain ⟨before, after, hcs, hplace, hc, hxs, hys⟩ := hscan.exists_append_cons
    exact ⟨before, after, hcs, hplace, hc, hxs.eq_dropTags.symm, hys.eq_dropTags.symm⟩
  · rintro ⟨before, after, rfl, hplace, hc, rfl, rfl⟩
    have hscan := (tagsCut_dropTags before).append_cons (tagsCut_dropTags after) hplace hc
    exact hscan.eq_dropTags.symm

end MarkupForest.Uri
