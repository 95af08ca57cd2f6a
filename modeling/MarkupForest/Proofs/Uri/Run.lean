import MarkupForest.Proofs.Uri.Slug
import Mathlib.Data.List.SplitBy

/-!
# Runs of characters

Two of the steps that make a slug work on runs. Marks of emphasis are runs of two or more
apostrophes, and every run of white space becomes one space, or goes if it is at an end of the text.
Both steps read a text character by character and know no more than what stands next to it, or
whether such a character came just before. Here they are compared with the maximal runs of the text:
those in which every character is of one kind, and which cannot be made longer.

A text is taken apart from left to right, one run after the other, and this is the induction behind
most of what follows. Deleting runs of apostrophes brings the characters around them together, but
no two apostrophes, since next to such a run stands none. White space at the ends is found by
another rule than white space between words, and the two agree.

## Main definitions

* `runs`: the maximal runs of a text;
* `words`: the runs of a text that are no white space;
* `Tidy`: a text with no white space but single spaces between words;
* `isEmphasis`: a run that is a mark of emphasis;
* `Lone`: a place for an apostrophe without another one next to it.

## Main results

* `run_induction`: from the text behind the first run to the whole text;
* `dropEmphasis_eq_flatten_runs`: a text without emphasis has all runs but the marks;
* `dropEmphasis_eq_append_cons_iff`: the apostrophes that are kept are the lone ones;
* `tidySpace_eq_intercalate_words`: a tidied text has its words one space apart;
* `tidySpace_eq_self_iff` and `dropEmphasis_eq_self_iff`: the texts that stay as they are;
* `slug_steps_by_runs`: both steps, as far as runs go.
-/

namespace MarkupForest.Uri

open scoped List

/-! ## Maximal runs -/

/-- The maximal runs of a text: its longest parts in which every character has the property, or none
has it. -/
def runs (p : Char → Bool) (cs : List Char) : List (List Char) :=
  cs.splitBy fun a b => p a == p b

/-- The first part of a text is its first maximal run, of characters with the property or without
it. -/
structure FirstRun (p : Char → Bool) (b : Bool) (run rest : List Char) : Prop where
  /-- The run has characters. -/
  ne_nil : run ≠ []
  /-- All of them are of one kind. -/
  uniform : ∀ c ∈ run, p c = b
  /-- The run ends where the other kind begins, or at the end of the text. -/
  ends : ∀ c ∈ rest.head?, p c ≠ b

variable {p : Char → Bool} {b : Bool} {run rest cs : List Char}

theorem FirstRun.runs_eq (h : FirstRun p b run rest) :
    runs p (run ++ rest) = run :: runs p rest := by
  have hchain : run.IsChain fun a c => (p a == p c) = true := by
    refine List.Pairwise.isChain (List.pairwise_of_forall_mem_list fun a ha c hc => ?_)
    rw [h.uniform a ha, h.uniform c hc, beq_self_eq_true]
  have hsplit : ∀ x ∈ run.getLast?, ∀ y ∈ rest.head?, (p x == p y) = false := by
    intro x hx y hy
    rw [h.uniform x (List.mem_of_getLast? hx)]
    simpa using Ne.symm (h.ends y hy)
  rw [runs, List.splitBy_append hsplit, List.splitBy_of_isChain h.ne_nil hchain]
  rfl

/-- A text that is not empty begins with a run. -/
theorem exists_firstRun (p : Char → Bool) (hcs : cs ≠ []) :
    ∃ b run rest, cs = run ++ rest ∧ FirstRun p b run rest := by
  obtain ⟨c, cs, rfl⟩ := List.exists_cons_of_ne_nil hcs
  refine ⟨p c, (c :: cs).takeWhile (p · == p c), (c :: cs).dropWhile (p · == p c),
    List.takeWhile_append_dropWhile.symm, ?_, ?_, ?_⟩
  · rw [List.takeWhile_cons_of_pos (by simp)]
    exact List.cons_ne_nil _ _
  · intro d hd
    simpa using List.mem_takeWhile_imp hd
  · intro d hd hsame
    exact not_of_mem_head?_dropWhile hd (beq_iff_eq.mpr hsame)

/-- What holds of the empty text, and of a text if it holds behind its first run, holds of every
text. -/
theorem run_induction (p : Char → Bool) {motive : List Char → Prop} (nil : motive [])
    (append : ∀ b run rest, FirstRun p b run rest → motive rest → motive (run ++ rest))
    (cs : List Char) : motive cs := by
  by_cases hcs : cs = []
  · exact hcs ▸ nil
  · obtain ⟨b, run, rest, rfl, hrun⟩ := exists_firstRun p hcs
    have hshorter : rest.length < (run ++ rest).length := by
      rw [List.length_append]
      exact Nat.lt_add_of_pos_left (List.length_pos_iff.mpr hrun.ne_nil)
    exact append b run rest hrun (run_induction p nil append rest)
termination_by cs.length

/-! ## Emphasis -/

theorem dropEmphasisAfter_of_head (hcs : cs.head? ≠ some '\x27') (quoteBefore : Bool) :
    dropEmphasisAfter quoteBefore cs = dropEmphasis cs := by
  cases cs with
  | nil => rfl
  | cons c cs =>
    have hc : c ≠ '\x27' := fun h => hcs (congrArg some h)
    rw [dropEmphasis, dropEmphasisAfter, dropEmphasisAfter, if_neg hc, if_neg hc]

theorem dropEmphasisAfter_append {as bs : List Char} (hbs : bs.head? ≠ some '\x27')
    (quoteBefore : Bool) :
    dropEmphasisAfter quoteBefore (as ++ bs) =
      dropEmphasisAfter quoteBefore as ++ dropEmphasis bs := by
  induction as generalizing quoteBefore with
  | nil => exact dropEmphasisAfter_of_head hbs quoteBefore
  | cons a as ih =>
    -- what comes next is no apostrophe if it comes from the second part
    have hnext : ((as ++ bs).head? == some '\x27') = (as.head? == some '\x27') := by
      cases as with
      | nil => simpa using hbs
      | cons d as => rfl
    rw [List.cons_append, dropEmphasisAfter, dropEmphasisAfter, hnext, ih, ih]
    split_ifs <;> rfl

theorem dropEmphasis_cons_of_ne {c : Char} (hc : c ≠ '\x27') (cs : List Char) :
    dropEmphasis (c :: cs) = c :: dropEmphasis cs := by
  rw [dropEmphasis, dropEmphasisAfter, if_neg hc]
  rfl

/-- Emphasis can be dropped part by part if the cut is not between two apostrophes. -/
theorem dropEmphasis_append {as bs : List Char}
    (h : as.getLast? ≠ some '\x27' ∨ bs.head? ≠ some '\x27') :
    dropEmphasis (as ++ bs) = dropEmphasis as ++ dropEmphasis bs := by
  rcases h with has | hbs
  · rcases List.eq_nil_or_concat as with rfl | ⟨as, a, rfl⟩
    · rfl
    · -- the last character of the first part is kept, and the cut can be made before it
      rw [List.concat_eq_append] at has ⊢
      have ha : a ≠ '\x27' := by simpa using has
      have hcut : ∀ cs, dropEmphasis (as ++ a :: cs) = dropEmphasis as ++ a :: dropEmphasis cs := by
        intro cs
        rw [← dropEmphasis_cons_of_ne ha]
        exact dropEmphasisAfter_append (by simpa using ha) false
      calc dropEmphasis (as ++ [a] ++ bs)
          = dropEmphasis (as ++ a :: bs) := by rw [List.append_assoc, List.singleton_append]
        _ = dropEmphasis as ++ a :: dropEmphasis bs := hcut bs
        _ = (dropEmphasis as ++ a :: dropEmphasis []) ++ dropEmphasis bs := by
          rw [List.append_assoc]
          rfl
        _ = dropEmphasis (as ++ [a]) ++ dropEmphasis bs := by rw [hcut]
  · exact dropEmphasisAfter_append hbs false

theorem dropEmphasis_of_not_mem (hcs : '\x27' ∉ cs) : dropEmphasis cs = cs := by
  induction cs with
  | nil => rfl
  | cons c cs ih =>
    rw [List.mem_cons, not_or] at hcs
    rw [dropEmphasis_cons_of_ne (Ne.symm hcs.1), ih hcs.2]

theorem dropEmphasisAfter_replicate (n : Nat) :
    dropEmphasisAfter true (List.replicate n '\x27') = [] := by
  induction n with
  | zero => rfl
  | succ n ih =>
    rw [List.replicate_succ, dropEmphasisAfter, if_pos rfl, Bool.true_or, if_pos rfl, ih]

/-- Whether a run is a mark of emphasis: two or more apostrophes. -/
def isEmphasis (run : List Char) : Bool :=
  run.all (· == '\x27') && 2 ≤ run.length

/-- A single run is a mark of emphasis, or it is kept. -/
theorem FirstRun.dropEmphasis_eq (h : FirstRun (· == '\x27') b run rest) :
    dropEmphasis run = if isEmphasis run then [] else run := by
  cases b with
  | false =>
    have hnot : '\x27' ∉ run := fun hmem => by simpa using h.uniform _ hmem
    rw [dropEmphasis_of_not_mem hnot]
    obtain ⟨c, run, rfl⟩ := List.exists_cons_of_ne_nil h.ne_nil
    have hc : (c == '\x27') = false := h.uniform c List.mem_cons_self
    rw [isEmphasis, List.all_cons, hc]
    rfl
  | true =>
    have hrun : run = List.replicate run.length '\x27' :=
      List.eq_replicate_of_mem fun c hc => by simpa using h.uniform c hc
    rw [hrun]
    match run.length with
    | 0 => rfl
    | 1 => rfl
    | n + 2 =>
      rw [if_pos (by simp [isEmphasis])]
      exact dropEmphasisAfter_replicate (n + 1)

/-- On one side of the border between two runs stands no apostrophe. -/
theorem FirstRun.border (h : FirstRun (· == '\x27') b run rest) :
    run.getLast? ≠ some '\x27' ∨ rest.head? ≠ some '\x27' := by
  by_contra! hquotes
  have hlast := h.uniform _ (List.mem_of_getLast? hquotes.1)
  exact h.ends _ hquotes.2 hlast

theorem dropEmphasis_eq_flatten_runs (cs : List Char) :
    dropEmphasis cs = ((runs (· == '\x27') cs).filter (!isEmphasis ·)).flatten := by
  induction cs using run_induction (· == '\x27') with
  | nil => rfl
  | append b run rest hrun ih =>
    rw [dropEmphasis_append hrun.border, hrun.dropEmphasis_eq, hrun.runs_eq, ih, List.filter_cons]
    cases isEmphasis run <;> simp

theorem head?_dropEmphasisAfter (cs : List Char) :
    (dropEmphasisAfter true cs).head? ≠ some '\x27' := by
  induction cs with
  | nil => simp [dropEmphasisAfter]
  | cons c cs ih =>
    rw [dropEmphasisAfter, Bool.true_or, if_pos rfl]
    split_ifs with hc
    · exact ih
    · simpa using hc

/-- An apostrophe is kept only if none stands next to it, and none comes to stand next to it. -/
theorem isChain_dropEmphasisAfter (quoteBefore : Bool) (cs : List Char) :
    (dropEmphasisAfter quoteBefore cs).IsChain fun a b => ¬(a = '\x27' ∧ b = '\x27') := by
  induction cs generalizing quoteBefore with
  | nil => exact List.isChain_nil
  | cons c cs ih =>
    rw [dropEmphasisAfter]
    split_ifs with hc
    · exact ih true
    · refine List.isChain_cons.mpr ⟨fun d hd h => head?_dropEmphasisAfter cs ?_, ih true⟩
      rw [← h.2]
      exact hd
    · exact List.isChain_cons.mpr ⟨fun d _ h => hc h.1, ih false⟩

theorem not_doubled_dropEmphasis (cs : List Char) : ¬['\x27', '\x27'] <:+: dropEmphasis cs :=
  isChain_iff_not_infix.mp (isChain_dropEmphasisAfter false cs)

/-- A text without two apostrophes in a row has no emphasis to drop. -/
theorem dropEmphasis_eq_self_iff : dropEmphasis cs = cs ↔ ¬['\x27', '\x27'] <:+: cs := by
  constructor
  · intro h
    rw [← h]
    exact not_doubled_dropEmphasis cs
  · intro h
    induction cs with
    | nil => rfl
    | cons c cs ih =>
      rw [List.infix_cons_iff, not_or] at h
      by_cases hc : c = '\x27'
      · -- the apostrophe has no other one after it, so it is kept
        have hnext : cs.head? ≠ some '\x27' := by
          intro hhead
          obtain ⟨rest, rfl⟩ := List.head?_eq_some_iff.mp hhead
          exact h.1 ⟨rest, by rw [hc]; rfl⟩
        rw [← List.singleton_append, dropEmphasis_append (.inr hnext), ih h.2, hc]
        rfl
      · rw [dropEmphasis_cons_of_ne hc, ih h.2]

/-! ## Lone apostrophes -/

/-- An apostrophe between these two parts of a text has no other one next to it. -/
def Lone (before after : List Char) : Prop :=
  before.getLast? ≠ some '\x27' ∧ after.head? ≠ some '\x27'

theorem Lone.dropEmphasis_append_cons {before after : List Char} (h : Lone before after) :
    dropEmphasis (before ++ '\x27' :: after) =
      dropEmphasis before ++ '\x27' :: dropEmphasis after := by
  rw [dropEmphasis_append (.inl h.1), ← List.singleton_append, dropEmphasis_append (.inr h.2)]
  rfl

/-- A run with an apostrophe in it is a mark of emphasis, or this apostrophe and nothing else. -/
theorem FirstRun.eq_nil_of_not_isEmphasis {xs ys : List Char}
    (h : FirstRun (· == '\x27') b (xs ++ '\x27' :: ys) rest)
    (hrun : ¬isEmphasis (xs ++ '\x27' :: ys)) : xs = [] ∧ ys = [] := by
  have hquotes : (xs ++ '\x27' :: ys).all (· == '\x27') := by
    have hb : ('\x27' == '\x27') = b := h.uniform _ (by simp)
    exact List.all_eq_true.mpr fun c hc => (h.uniform c hc).trans hb.symm
  have hshort : (xs ++ '\x27' :: ys).length < 2 := by
    simpa only [isEmphasis, hquotes, Bool.true_and, decide_eq_true_eq, not_le] using hrun
  rw [List.length_append, List.length_cons] at hshort
  exact ⟨List.eq_nil_of_length_eq_zero (by omega), List.eq_nil_of_length_eq_zero (by omega)⟩

/-- An apostrophe that is alone behind a run is alone in the whole text. -/
theorem FirstRun.lone_append {before after : List Char}
    (h : FirstRun (· == '\x27') b run (before ++ '\x27' :: after)) (hlone : Lone before after) :
    Lone (run ++ before) after ∧
      dropEmphasis (run ++ before) = dropEmphasis run ++ dropEmphasis before := by
  cases before with
  | nil =>
    -- the run ends at the apostrophe, so its last character is another one
    have hlast : run.getLast? ≠ some '\x27' := by simpa using h.border
    rw [List.append_nil]
    exact ⟨⟨hlast, hlone.2⟩, (List.append_nil _).symm⟩
  | cons c before =>
    refine ⟨⟨?_, hlone.2⟩, dropEmphasis_append h.border⟩
    simpa [List.getLast?_append] using hlone.1

theorem exists_lone_of_dropEmphasis_eq {xs ys : List Char}
    (h : dropEmphasis cs = xs ++ '\x27' :: ys) :
    ∃ before after, cs = before ++ '\x27' :: after ∧ Lone before after ∧
      dropEmphasis before = xs ∧ dropEmphasis after = ys := by
  induction cs using run_induction (· == '\x27') generalizing xs with
  | nil => simp [dropEmphasis, dropEmphasisAfter] at h
  | append b run rest hrun ih =>
    -- an apostrophe that is kept behind the run is found there, and the run goes to its left
    have hbehind : ∀ zs, xs = dropEmphasis run ++ zs → dropEmphasis rest = zs ++ '\x27' :: ys →
        ∃ before after, run ++ rest = before ++ '\x27' :: after ∧ Lone before after ∧
          dropEmphasis before = xs ∧ dropEmphasis after = ys := by
      rintro zs rfl hzs
      obtain ⟨before, after, rfl, hlone, rfl, rfl⟩ := ih hzs
      obtain ⟨hlone', hbefore⟩ := hrun.lone_append hlone
      exact ⟨run ++ before, after, (List.append_assoc ..).symm, hlone', hbefore, rfl⟩
    rw [dropEmphasis_append hrun.border] at h
    rcases List.append_eq_append_iff.mp h with ⟨zs, hxs, hrest⟩ | ⟨zs, hzs, hys⟩
    · exact hbehind zs hxs hrest
    · cases zs with
      | nil => exact hbehind [] (by simpa using hzs.symm) hys.symm
      | cons z zs =>
        -- the apostrophe is kept from the run itself, which is no mark of emphasis then
        obtain ⟨rfl, rfl⟩ := List.cons.inj hys
        rw [hrun.dropEmphasis_eq] at hzs
        split_ifs at hzs with hemphasis
        · simp at hzs
        · subst hzs
          obtain ⟨rfl, rfl⟩ := hrun.eq_nil_of_not_isEmphasis hemphasis
          refine ⟨[], rest, rfl, ⟨by simp, fun hhead => ?_⟩, rfl, rfl⟩
          exact hrun.ends _ hhead (hrun.uniform _ List.mem_cons_self)

/-- The apostrophes that are kept are those that stand alone. -/
theorem dropEmphasis_eq_append_cons_iff {xs ys : List Char} :
    dropEmphasis cs = xs ++ '\x27' :: ys ↔
      ∃ before after, cs = before ++ '\x27' :: after ∧ Lone before after ∧
        dropEmphasis before = xs ∧ dropEmphasis after = ys := by
  constructor
  · exact exists_lone_of_dropEmphasis_eq
  · rintro ⟨before, after, rfl, hlone, rfl, rfl⟩
    exact hlone.dropEmphasis_append_cons

/-! ## Words and gaps -/

/-- The white space of ASCII, with the vertical tab. -/
def whiteSpace : List Char := [' ', '\t', '\n', '\x0b', '\x0c', '\r']

theorem isBlank_eq_contains : isBlank = whiteSpace.contains := by
  ext c
  simp only [isBlank, whiteSpace, List.contains_cons, List.contains_nil, Bool.or_false,
    Bool.or_assoc]

theorem isBlank_iff_mem {c : Char} : isBlank c ↔ c ∈ whiteSpace := by
  rw [isBlank_eq_contains, List.contains_iff_mem]

/-- The words of a text: its maximal runs of characters that are no white space. -/
def words (cs : List Char) : List (List Char) :=
  (runs whiteSpace.contains cs).filter fun run => !run.any whiteSpace.contains

theorem FirstRun.words_eq (h : FirstRun isBlank b run rest) :
    words (run ++ rest) = if b then words rest else run :: words rest := by
  have hany : run.any isBlank = b := by
    cases b with
    | false => exact List.any_eq_false.mpr fun c hc => Bool.eq_false_iff.mp (h.uniform c hc)
    | true =>
      obtain ⟨c, run, rfl⟩ := List.exists_cons_of_ne_nil h.ne_nil
      exact List.any_eq_true.mpr ⟨c, List.mem_cons_self, h.uniform c List.mem_cons_self⟩
  rw [words, ← isBlank_eq_contains, h.runs_eq, List.filter_cons, hany, words, isBlank_eq_contains]
  cases b <;> rfl

theorem collapseBlanks_of_head (hcs : ∀ c ∈ cs.head?, ¬isBlank c) (blankBefore : Bool) :
    collapseBlanks blankBefore cs = collapseBlanks false cs := by
  cases cs with
  | nil => rfl
  | cons c cs =>
    have hc : ¬isBlank c := hcs c rfl
    rw [collapseBlanks, collapseBlanks, if_neg hc, if_neg hc]

/-- Runs of blanks can be collapsed part by part if the second part begins with none. -/
theorem collapseBlanks_append {as bs : List Char} (hbs : ∀ c ∈ bs.head?, ¬isBlank c)
    (blankBefore : Bool) :
    collapseBlanks blankBefore (as ++ bs) =
      collapseBlanks blankBefore as ++ collapseBlanks false bs := by
  induction as generalizing blankBefore with
  | nil => exact collapseBlanks_of_head hbs blankBefore
  | cons a as ih =>
    rw [List.cons_append, collapseBlanks, collapseBlanks, ih, ih]
    split_ifs <;> rfl

theorem collapseBlanks_word_append {word : List Char} (hword : ∀ c ∈ word, isBlank c = false)
    (cs : List Char) : collapseBlanks false (word ++ cs) = word ++ collapseBlanks false cs := by
  induction word with
  | nil => rfl
  | cons c word ih =>
    rw [List.forall_mem_cons] at hword
    rw [List.cons_append, collapseBlanks, hword.1, if_neg Bool.false_ne_true, ih hword.2,
      List.cons_append]

theorem collapseBlanks_gap {gap : List Char} (hgap : ∀ c ∈ gap, isBlank c) (blankBefore : Bool) :
    collapseBlanks blankBefore gap = if blankBefore || gap.isEmpty then [] else [' '] := by
  induction gap generalizing blankBefore with
  | nil => simp [collapseBlanks]
  | cons c gap ih =>
    rw [List.forall_mem_cons] at hgap
    rw [collapseBlanks, if_pos hgap.1, ih hgap.2]
    cases blankBefore <;> rfl

/-- A character that is no blank ends the white space at the end of the text. -/
theorem rdropWhile_cons_of_not {c : Char} (hc : ¬isBlank c) (cs : List Char) :
    (c :: cs).rdropWhile isBlank = c :: cs.rdropWhile isBlank := by
  rw [← List.singleton_append, rdropWhile_append, List.rdropWhile_singleton, if_neg hc]
  split_ifs with hcs
  · rw [List.isEmpty_iff.mp hcs]
  · rfl

theorem rdropWhile_word_append {word : List Char} (hword : ∀ c ∈ word, isBlank c = false)
    (cs : List Char) :
    (word ++ cs).rdropWhile isBlank = word ++ cs.rdropWhile isBlank := by
  induction word with
  | nil => rfl
  | cons c word ih =>
    rw [List.forall_mem_cons] at hword
    rw [List.cons_append, rdropWhile_cons_of_not (Bool.eq_false_iff.mp hword.1), ih hword.2,
      List.cons_append]

theorem words_cons_ne_nil {c : Char} (hc : ¬isBlank c) (cs : List Char) : words (c :: cs) ≠ [] := by
  obtain ⟨b, run, rest, hsplit, hrun⟩ := exists_firstRun isBlank (List.cons_ne_nil c cs)
  obtain ⟨d, run, rfl⟩ := List.exists_cons_of_ne_nil hrun.ne_nil
  obtain ⟨rfl, -⟩ := List.cons.inj hsplit
  have hb : b = false := (hrun.uniform c List.mem_cons_self).symm.trans (Bool.eq_false_iff.mpr hc)
  rw [hsplit, hrun.words_eq, hb]
  exact List.cons_ne_nil _ _

/-- What becomes of a text after the white space at its end is gone: its words with single spaces
between them, and one more space at the beginning if it begins with a gap. -/
theorem collapseBlanks_rdropWhile (cs : List Char) :
    collapseBlanks false (cs.rdropWhile isBlank) =
      (if cs.head?.any isBlank && !(words cs).isEmpty then [' '] else []) ++
        [' '].intercalate (words cs) := by
  induction cs using run_induction isBlank with
  | nil => rfl
  | append b run rest hrun ih =>
    obtain ⟨c, run, rfl⟩ := List.exists_cons_of_ne_nil hrun.ne_nil
    have hc : isBlank c = b := hrun.uniform c List.mem_cons_self
    cases b with
    | false =>
      -- the word is kept as it is, and a gap follows it if another word comes
      rw [rdropWhile_word_append hrun.uniform, collapseBlanks_word_append hrun.uniform, ih,
        hrun.words_eq]
      cases hwords : words rest with
      | nil => simp [hc]
      | cons w ws =>
        have hrest : rest.head?.any isBlank := by
          cases rest with
          | nil => cases hwords
          | cons d rest => simpa using hrun.ends d rfl
        simp [hc, hrest]
    | true =>
      cases rest with
      | nil =>
        -- the gap is the white space at the end
        have hnil : (c :: run ++ []).rdropWhile isBlank = [] :=
          List.rdropWhile_eq_nil_iff.mpr (by simpa using hrun.uniform)
        have hwords : words [] = [] := rfl
        rw [hnil, hrun.words_eq, if_pos rfl, hwords]
        simp [collapseBlanks]
      | cons d rest =>
        have hd : ¬isBlank d := hrun.ends d rfl
        have htrim : (c :: run ++ d :: rest).rdropWhile isBlank =
            c :: run ++ (d :: rest).rdropWhile isBlank := by
          rw [rdropWhile_append, rdropWhile_cons_of_not hd]
          rfl
        have hhead : ∀ e ∈ ((d :: rest).rdropWhile isBlank).head?, ¬isBlank e := by
          rw [rdropWhile_cons_of_not hd]
          simpa using hd
        rw [htrim, collapseBlanks_append hhead, collapseBlanks_gap hrun.uniform, ih, hrun.words_eq]
        simp [hc, hd, words_cons_ne_nil hd rest]

theorem words_dropWhile (cs : List Char) : words (cs.dropWhile isBlank) = words cs := by
  have hsplit : cs.takeWhile isBlank ++ cs.dropWhile isBlank = cs :=
    List.takeWhile_append_dropWhile
  by_cases hgap : cs.takeWhile isBlank = []
  · rw [hgap, List.nil_append] at hsplit
    rw [hsplit]
  · have hrun : FirstRun isBlank true (cs.takeWhile isBlank) (cs.dropWhile isBlank) :=
      ⟨hgap, fun c hc => List.mem_takeWhile_imp hc, fun c hc => not_of_mem_head?_dropWhile hc⟩
    have hwords := hrun.words_eq
    rw [hsplit, if_pos rfl] at hwords
    exact hwords.symm

theorem tidySpace_eq_intercalate_words (cs : List Char) :
    tidySpace cs = [' '].intercalate (words cs) := by
  have hhead : (cs.dropWhile isBlank).head?.any isBlank = false := by
    cases hfirst : (cs.dropWhile isBlank).head? with
    | none => rfl
    | some c => exact Bool.eq_false_iff.mpr (not_of_mem_head?_dropWhile hfirst)
  rw [tidySpace, trimBlanks_eq, collapseBlanks_rdropWhile, hhead, words_dropWhile]
  rfl

/-! ## Tidy texts -/

/-- A text with no white space but single spaces between other characters. -/
structure Tidy (cs : List Char) : Prop where
  /-- No white space comes first. -/
  head : ∀ c ∈ cs.head?, c ∉ whiteSpace
  /-- No white space comes last. -/
  last : ∀ c ∈ cs.getLast?, c ∉ whiteSpace
  /-- No white space stands next to other white space. -/
  single : cs.IsChain fun a b => ¬(a ∈ whiteSpace ∧ b ∈ whiteSpace)
  /-- All white space is spaces. -/
  spaces : ∀ c ∈ cs, c ∈ whiteSpace → c = ' '

theorem getLast?_tidySpace {c : Char} (h : c ∈ (tidySpace cs).getLast?) : ¬isBlank c := by
  rcases List.eq_nil_or_concat (trimBlanks cs) with hnil | ⟨front, d, hconcat⟩
  · rw [tidySpace, hnil] at h
    cases h
  · -- the last character is no blank, so it is the last one that is written
    rw [List.concat_eq_append] at hconcat
    have hd : ¬isBlank d := by
      have htrim : (front ++ [d]).rdropWhile isBlank = front ++ [d] := by
        rw [← hconcat, trimBlanks_eq, List.rdropWhile_idempotent]
      simpa using (List.rdropWhile_eq_self_iff ..).mp htrim (by simp)
    have hlast : tidySpace cs = collapseBlanks false front ++ [d] := by
      rw [tidySpace, hconcat, collapseBlanks_append (by simpa using hd), collapseBlanks, if_neg hd]
      rfl
    rw [hlast, List.getLast?_concat, Option.mem_some_iff] at h
    exact h ▸ hd

theorem tidy_tidySpace (cs : List Char) : Tidy (tidySpace cs) := by
  obtain ⟨hhead, hdouble⟩ := spaced_iff.mp (spaced_tidySpace cs)
  have hspace : ∀ c ∈ tidySpace cs, c ∈ whiteSpace → c = ' ' := fun c hc hblank =>
    (mem_tidySpace hc).resolve_right fun h => h.2 (isBlank_iff_mem.mpr hblank)
  refine ⟨fun c hc hblank => hhead ?_, fun c hc hblank => ?_, ?_, hspace⟩
  · rw [← hspace c (List.mem_of_mem_head? hc) hblank]
    exact hc
  · exact getLast?_tidySpace hc (isBlank_iff_mem.mpr hblank)
  · rw [List.isChain_iff_forall_rel_of_append_cons_cons]
    rintro a b before after hsplit ⟨ha, hb⟩
    refine hdouble ⟨before, after, ?_⟩
    have ha' := hspace a (by rw [hsplit]; simp) ha
    have hb' := hspace b (by rw [hsplit]; simp) hb
    rw [hsplit, ha', hb']
    simp

theorem collapseBlanks_eq_self {blankBefore : Bool}
    (hhead : blankBefore → ∀ c ∈ cs.head?, ¬isBlank c)
    (hsingle : cs.IsChain fun a b => ¬(a ∈ whiteSpace ∧ b ∈ whiteSpace))
    (hspace : ∀ c ∈ cs, c ∈ whiteSpace → c = ' ') : collapseBlanks blankBefore cs = cs := by
  induction cs generalizing blankBefore with
  | nil => rfl
  | cons c cs ih =>
    obtain ⟨hnext, hsingle⟩ := List.isChain_cons.mp hsingle
    rw [List.forall_mem_cons] at hspace
    rw [collapseBlanks]
    by_cases hc : isBlank c
    · -- a blank is a space that comes after no blank, and none comes after it
      have hbefore : ¬blankBefore := fun h => hhead h c rfl hc
      have hmem := isBlank_iff_mem.mp hc
      have hafter : ∀ d ∈ cs.head?, ¬isBlank d := fun d hd hblank =>
        hnext d hd ⟨hmem, isBlank_iff_mem.mp hblank⟩
      rw [if_pos hc, if_neg hbefore, ih (fun _ => hafter) hsingle hspace.2, hspace.1 hmem]
    · rw [if_neg hc, ih (fun h => absurd h Bool.false_ne_true) hsingle hspace.2]

/-- The tidy texts are those that stay as they are. -/
theorem tidySpace_eq_self_iff : tidySpace cs = cs ↔ Tidy cs := by
  constructor
  · intro h
    rw [← h]
    exact tidy_tidySpace cs
  · intro h
    have hhead : cs.dropWhile isBlank = cs := by
      cases cs with
      | nil => rfl
      | cons c cs =>
        exact List.dropWhile_cons_of_neg fun hc => h.head c rfl (isBlank_iff_mem.mp hc)
    have hlast : cs.rdropWhile isBlank = cs := by
      refine (List.rdropWhile_eq_self_iff ..).mpr fun hne hblank => ?_
      exact h.last _ (List.getLast?_eq_some_getLast hne) (isBlank_iff_mem.mp hblank)
    rw [tidySpace, trimBlanks_eq, hhead, hlast]
    exact collapseBlanks_eq_self (fun hfalse => absurd hfalse Bool.false_ne_true) h.single h.spaces

theorem filter_collapseBlanks (blankBefore : Bool) (cs : List Char) :
    (collapseBlanks blankBefore cs).filter (!isBlank ·) = cs.filter (!isBlank ·) := by
  induction cs generalizing blankBefore with
  | nil => rfl
  | cons c cs ih =>
    have hspace : isBlank ' ' := by decide
    rw [collapseBlanks]
    split_ifs with hc <;> simp [hc, hspace, ih]

theorem filter_dropWhile (cs : List Char) :
    (cs.dropWhile isBlank).filter (!isBlank ·) = cs.filter (!isBlank ·) := by
  induction cs with
  | nil => rfl
  | cons c cs ih =>
    rw [List.dropWhile_cons]
    split_ifs with hc
    · rw [ih, List.filter_cons_of_neg (by simpa using hc)]
    · rfl

/-- Every other character is kept. -/
theorem filter_tidySpace (cs : List Char) :
    (tidySpace cs).filter (!isBlank ·) = cs.filter (!isBlank ·) := by
  rw [tidySpace, filter_collapseBlanks, trimBlanks_eq, List.rdropWhile, List.filter_reverse,
    filter_dropWhile, List.filter_reverse, List.reverse_reverse, filter_dropWhile]

/-- What the two steps do to the runs of a text. Tidying leaves the words, in order and one space
apart, and doing it again changes nothing: no white space is left at the ends or next to other white
space, and every other character, Unicode spaces among them, is kept. Dropping emphasis deletes the
runs of two or more apostrophes and nothing else: no two apostrophes come together, so doing it
again changes nothing, and the apostrophes that are kept are those that stand alone. -/
theorem slug_steps_by_runs (cs : List Char) :
    (tidySpace cs = [' '].intercalate (words cs) ∧
      tidySpace (tidySpace cs) = tidySpace cs ∧
      Tidy (tidySpace cs) ∧
      (tidySpace cs).filter (!whiteSpace.contains ·) = cs.filter (!whiteSpace.contains ·)) ∧
    dropEmphasis cs = ((runs (· == '\x27') cs).filter (!isEmphasis ·)).flatten ∧
    ¬['\x27', '\x27'] <:+: dropEmphasis cs ∧
    dropEmphasis (dropEmphasis cs) = dropEmphasis cs ∧
    ∀ xs ys, dropEmphasis cs = xs ++ '\x27' :: ys ↔
      ∃ before after, cs = before ++ '\x27' :: after ∧ Lone before after ∧
        dropEmphasis before = xs ∧ dropEmphasis after = ys := by
  refine ⟨⟨tidySpace_eq_intercalate_words cs, tidySpace_eq_self_iff.mpr (tidy_tidySpace cs),
    tidy_tidySpace cs, ?_⟩, dropEmphasis_eq_flatten_runs cs, not_doubled_dropEmphasis cs, ?_,
    fun xs ys => dropEmphasis_eq_append_cons_iff⟩
  · rw [← isBlank_eq_contains]
    exact filter_tidySpace cs
  · exact dropEmphasis_eq_self_iff.mpr (not_doubled_dropEmphasis cs)

-- all six kinds of white space count, also at the ends, and a no-break space does not
example : tidySpace "\x0b \u00a0a\t\x0c\nb\u0085\r".toList = "\u00a0a b\u0085".toList := by
  decide +kernel

end MarkupForest.Uri
