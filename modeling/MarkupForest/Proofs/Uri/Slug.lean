import MarkupForest.Proofs.Uri.Cut
import Mathlib.Data.List.Chain

/-!
# The form of slugs

Several steps, one after the other, make a slug out of a text, and each works on what the steps
before it have left. So what one step removes must not come back later: characters that were apart
stand side by side once those between them are gone, and the text is cut short before it is escaped.

Each step is described by the characters that it keeps and by their order. Deletions leave a
sublist, replacements bring in no other character than the space, and single spaces are made when no
later step deletes anything but the end of the text. The rest is carried through the escapes.

## Main definitions

* `HasTag`: a text with a `<` and a later `>`;
* `Spaced`: a text that neither begins with a given character nor has it twice in a row.

## Main results

* `not_hasTag_dropTagsFrom`: no tag is left;
* `isChain_collapseBlanks` and `spaced_tidySpace`: no space is doubled;
* `mem_plainWords`, `not_hasTag_plainWords` and `spaced_plainWords`: the words of a text;
* `slug_normal_form`: which characters a slug has, what it is read back as, and how it grows;
* `issue_separates`: underscores in slugs and in tails stand alone.
-/

namespace MarkupForest.Uri

open scoped List

/-! ## Deletions and replacements -/

theorem dropEmphasisAfter_sublist (quoteBefore : Bool) (cs : List Char) :
    dropEmphasisAfter quoteBefore cs <+ cs := by
  induction cs generalizing quoteBefore with
  | nil => exact List.Sublist.slnil
  | cons c cs ih =>
    rw [dropEmphasisAfter]
    split_ifs
    · exact (ih true).cons c
    · exact (ih true).cons_cons c
    · exact (ih false).cons_cons c

theorem dropTagsFrom_sublist (inTag : Bool) (cs : List Char) : dropTagsFrom inTag cs <+ cs := by
  induction cs generalizing inTag with
  | nil => exact List.Sublist.slnil
  | cons c cs ih =>
    rw [dropTagsFrom]
    split_ifs
    · exact (ih _).cons c
    · exact (ih true).cons c
    · exact (ih false).cons_cons c

/-- Writing spaces brings in no other character. -/
theorem mem_plainSpaces {c : Char} {cs : List Char} (h : c ∈ plainSpaces cs) : c = ' ' ∨ c ∈ cs := by
  fun_induction plainSpaces cs with
  | case1 => contradiction
  | case2 cs ih =>
    rcases List.mem_cons.mp h with rfl | h
    · exact .inl rfl
    · exact (ih h).imp_right fun hc => by simp [hc]
  | case3 d cs _ ih =>
    rcases List.mem_cons.mp h with rfl | h
    · exact .inr List.mem_cons_self
    · exact (ih h).imp_right (List.mem_cons_of_mem d)

/-! ## Tags -/

/-- A `<` stands in the text, and a `>` somewhere after it. -/
def HasTag (cs : List Char) : Prop :=
  ['<', '>'] <+ cs

/-- No tag is left, whether or not the text starts inside one. -/
theorem not_hasTag_dropTagsFrom (inTag : Bool) (cs : List Char) :
    ¬HasTag (dropTagsFrom inTag cs) := by
  induction cs generalizing inTag with
  | nil =>
    rw [dropTagsFrom]
    exact fun h => by simp [HasTag] at h
  | cons c cs ih =>
    rw [dropTagsFrom]
    split_ifs with htag hopen
    · exact ih _
    · exact ih true
    · -- only here is a character kept, and it could be the start of a tag
      intro h
      rcases List.sublist_cons_iff.mp h with h | ⟨rest, hrest, hclose⟩
      · exact ih false h
      · -- but nothing closes it
        obtain ⟨rfl, rfl⟩ := List.cons.inj hrest
        have hmem : '>' ∈ cs :=
          (dropTagsFrom_sublist false cs).subset (List.singleton_sublist.mp hclose)
        simp [hmem] at hopen

theorem HasTag.of_sublist {as bs : List Char} (h : HasTag as) (hsub : as <+ bs) : HasTag bs :=
  h.trans hsub

/-- Writing one character for some others makes no tag unless it is a bracket. -/
theorem HasTag.of_replace {p : Char → Prop} [DecidablePred p] {d : Char} {cs : List Char}
    (h : HasTag (cs.map fun c => if p c then d else c)) (hd : d ∉ ['<', '>']) : HasTag cs := by
  obtain ⟨kept, hkept, htag⟩ := List.sublist_map_iff.mp h
  -- the two characters of the tag are none of those that were written, so they stood there before
  have hsame : kept.map (fun c => if p c then d else c) = kept := by
    refine (List.map_congr_left fun c hc => ?_).trans (List.map_id kept)
    by_cases hp : p c
    · refine absurd ?_ hd
      rw [htag]
      exact List.mem_map.mpr ⟨c, hc, if_pos hp⟩
    · exact if_neg hp
  rw [hsame] at htag
  rwa [HasTag, htag]

/-! ## Single spaces -/

/-- The text does not begin with the character, and does not have it twice in a row. -/
def Spaced (c : Char) (cs : List Char) : Prop :=
  (c :: cs).IsChain fun a b => ¬(a = c ∧ b = c)

theorem spaced_iff {c : Char} {cs : List Char} :
    Spaced c cs ↔ cs.head? ≠ some c ∧ ¬[c, c] <:+: cs := by
  rw [Spaced, List.isChain_cons, isChain_iff_not_infix]
  refine and_congr_left fun _ => ?_
  constructor
  · intro h hhead
    exact h c hhead ⟨rfl, rfl⟩
  · rintro h d hd ⟨-, rfl⟩
    exact h hd

/-- A character with a space for a blank. -/
def spaceOfBlank (c : Char) : Char :=
  if isBlank c then ' ' else c

theorem collapseBlanks_sublist (blankBefore : Bool) (cs : List Char) :
    collapseBlanks blankBefore cs <+ cs.map spaceOfBlank := by
  induction cs generalizing blankBefore with
  | nil => exact List.Sublist.slnil
  | cons c cs ih =>
    rw [collapseBlanks, List.map_cons, spaceOfBlank]
    split_ifs
    · exact (ih true).cons ' '
    · exact (ih true).cons_cons ' '
    · exact (ih false).cons_cons c

theorem tidySpace_sublist (cs : List Char) : tidySpace cs <+ cs.map spaceOfBlank := by
  have htrim : trimBlanks cs <+ cs := by
    rw [trimBlanks]
    refine List.Sublist.trans ?_ (List.dropWhile_sublist isMargin)
    exact List.reverse_sublist.mp (by simpa using List.dropWhile_sublist isMargin)
  exact (collapseBlanks_sublist false _).trans (htrim.map spaceOfBlank)

theorem mem_tidySpace {c : Char} {cs : List Char} (h : c ∈ tidySpace cs) :
    c = ' ' ∨ c ∈ cs ∧ ¬isBlank c := by
  obtain ⟨d, hd, rfl⟩ := List.mem_map.mp ((tidySpace_sublist cs).subset h)
  rw [spaceOfBlank]
  split_ifs with hblank
  · exact .inl rfl
  · exact .inr ⟨hd, hblank⟩

theorem ne_space_of_not_isBlank {c : Char} (h : ¬isBlank c) : c ≠ ' ' := by
  rintro rfl
  exact h (by decide)

/-- A space is written only where no blank stands before it, so no two spaces meet, also with a
character before the text. -/
theorem isChain_collapseBlanks {a : Char} {blankBefore : Bool} (ha : a = ' ' → blankBefore)
    (cs : List Char) :
    (a :: collapseBlanks blankBefore cs).IsChain fun a b => ¬(a = ' ' ∧ b = ' ') := by
  induction cs generalizing a blankBefore with
  | nil => exact List.isChain_singleton a
  | cons c cs ih =>
    rw [collapseBlanks]
    split_ifs with hblank hbefore
    · exact ih fun _ => rfl
    · -- the character before is no space, since it would have been a blank
      exact (ih fun _ => rfl).cons_cons fun h => hbefore (ha h.1)
    · have hc := ne_space_of_not_isBlank hblank
      exact (ih fun h => absurd h hc).cons_cons fun h => hc h.2

/-- What is removed at the ends of a text is what counts as a blank between words. -/
theorem isMargin_eq_isBlank : isMargin = isBlank := by
  ext c
  rw [Bool.eq_iff_iff]
  simp only [isMargin, isBlank, Char.isWhitespace, Bool.or_eq_true, beq_iff_eq, decide_eq_true_eq]
  tauto

theorem trimBlanks_eq (cs : List Char) :
    trimBlanks cs = (cs.dropWhile isBlank).rdropWhile isBlank := by
  rw [trimBlanks, isMargin_eq_isBlank]
  rfl

theorem not_of_mem_head?_dropWhile {p : Char → Bool} {c : Char} {cs : List Char}
    (h : c ∈ (cs.dropWhile p).head?) : ¬p c := by
  have hnot := List.head?_dropWhile_not p cs
  rw [Option.mem_def.mp h] at hnot
  simpa using hnot

theorem head?_trimBlanks {c : Char} {cs : List Char} (h : (trimBlanks cs).head? = some c) :
    ¬isBlank c := by
  obtain ⟨trimmed, hsplit⟩ : trimBlanks cs <+: cs.dropWhile isBlank := by
    rw [trimBlanks_eq]
    exact List.rdropWhile_prefix ..
  have hhead : (cs.dropWhile isBlank).head? = some c := by
    rw [← hsplit, List.head?_append, h, Option.some_or]
  exact not_of_mem_head?_dropWhile hhead

theorem spaced_tidySpace (cs : List Char) : Spaced ' ' (tidySpace cs) := by
  rw [Spaced, tidySpace]
  cases htrim : trimBlanks cs with
  | nil => exact List.isChain_singleton ' '
  | cons c rest =>
    -- the first character is no blank, so it is kept as it is
    have hblank : ¬isBlank c := head?_trimBlanks (by rw [htrim]; rfl)
    have hc := ne_space_of_not_isBlank hblank
    rw [collapseBlanks, if_neg hblank]
    exact (isChain_collapseBlanks (fun h => absurd h hc) rest).cons_cons fun h => hc h.2

/-! ## Plain words -/

/-- The words of a text are made of spaces and of characters of the text. -/
theorem mem_plainWords {c : Char} {cs : List Char} (h : c ∈ plainWords cs) :
    c = ' ' ∨ c ∈ cs ∧ ¬isGap c ∧ ¬isPunctuation c := by
  -- the steps are undone from the last one to the first, as long as the character is no space
  rcases mem_tidySpace h with hspace | ⟨hmem, -⟩
  · exact .inl hspace
  · obtain ⟨htags, hpunctuation⟩ := List.mem_filter.mp hmem
    obtain ⟨d, hd, rfl⟩ := List.mem_map.mp ((dropTagsFrom_sublist false _).subset htags)
    split_ifs at hpunctuation ⊢ with hgap
    · exact .inl rfl
    · rcases mem_plainSpaces hd with hspace | hd
      · exact .inl hspace
      · exact .inr ⟨(dropEmphasisAfter_sublist false cs).subset hd, hgap,
          by simpa using hpunctuation⟩

theorem not_hasTag_plainWords (cs : List Char) : ¬HasTag (plainWords cs) := by
  intro h
  -- spaces are tidied and punctuation is dropped after the tags, and neither makes a new one
  have hwords := HasTag.of_replace (h.of_sublist (tidySpace_sublist _)) (by decide)
  exact not_hasTag_dropTagsFrom false _ (hwords.of_sublist List.filter_sublist)

theorem spaced_plainWords (cs : List Char) : Spaced ' ' (plainWords cs) :=
  spaced_tidySpace _

/-! ## Slugs -/

/-- The signs that a slug leaves out. -/
def omitted : List Char := "()!,.:;?".toList

theorem not_mem_omitted_of_mem_slug {c : Char} {limit : Nat} {cs : List Char}
    (h : c ∈ slug limit cs) : c ∉ omitted := by
  -- none of the signs belongs to an escape, and none gets through to the words
  have hsigns : ∀ d ∈ omitted, d ≠ '_' ∧ d ≠ '%' ∧ d ∉ capitalHexDigits ∧ d ≠ ' ' ∧
      (isGap d ∨ isPunctuation d) :=
    List.all_iff_forall_prop.mp (by decide)
  intro hmem
  obtain ⟨hunderscore, hsign, hdigit, hspace, hgap⟩ := hsigns c hmem
  rcases mem_escape h with ⟨rfl, -⟩ | rfl | hdigit' | ⟨hword, -, -⟩
  · exact hunderscore rfl
  · exact hsign rfl
  · exact hdigit hdigit'
  · rcases mem_plainWords (List.mem_of_mem_take hword) with hspace' | ⟨-, hgap', hpunctuation'⟩
    · exact hspace hspace'
    · exact hgap.elim hgap' hpunctuation'

theorem slug_prefix_slug (cs : List Char) {m n : Nat} (hmn : m ≤ n) : slug m cs <+: slug n cs := by
  obtain ⟨rest, hrest⟩ := List.take_prefix_take_left hmn (l := plainWords cs)
  rw [slug, slug, ← hrest, escape_append]
  exact List.prefix_append _ _

/-- The normal form of slugs. A slug has none of the signs that are left out and no character that a
URI has no place for, and every percent sign in it begins an escape. It is read back as a text that
is no longer than the limit and has no tag. With a greater limit it only grows at its end. -/
theorem slug_normal_form (cs : List Char) (m : Nat) :
    (∀ c ∈ slug m cs, c ∉ omitted ∧ ¬Barred c) ∧
    WholeEscapes capitalHexDigits (slug m cs) ∧
    (∃ ws, decode? (slug m cs) = some ws ∧ ws.length ≤ m ∧ ¬HasTag ws) ∧
    ∀ n, m ≤ n → slug m cs <+: slug n cs := by
  have hescaped : WellEscaped (slug m cs) := wellEscaped_escape _
  refine ⟨fun c hc => ⟨not_mem_omitted_of_mem_slug hc, hescaped.clear c hc⟩, hescaped.whole,
    ⟨_, decode?_escape _, ?_, ?_⟩, fun n hmn => slug_prefix_slug cs hmn⟩
  · rw [List.length_map]
    exact List.length_take_le m _
  · intro htag
    have hcut := HasTag.of_replace htag (by decide)
    exact not_hasTag_plainWords cs (hcut.of_sublist (List.take_sublist m _))

/-- A bracket that nothing closes is kept, and the cut is made before it is escaped. -/
theorem slug_normal_form_openBracket :
    slug 5 "(<i>a</i>)\u0085 <b!>, <#".toList = "a_%C2%85_%3C".toList ∧
    '<' ∉ slug 5 "(<i>a</i>)\u0085 <b!>, <#".toList ∧
    ('C' ∉ omitted ∧ ¬Barred 'C') ∧
    (∃ ws, decode? (slug 5 "(<i>a</i>)\u0085 <b!>, <#".toList) = some ws ∧ ws.length ≤ 5 ∧
      ¬HasTag ws) ∧
    slug 5 "(<i>a</i>)\u0085 <b!>, <#".toList <+: slug 6 "(<i>a</i>)\u0085 <b!>, <#".toList := by
  obtain ⟨hchars, -, hread, hgrow⟩ := slug_normal_form "(<i>a</i>)\u0085 <b!>, <#".toList 5
  refine ⟨by decide +kernel, fun h => (hchars '<' h).2 (by decide), hchars 'C' (by decide +kernel),
    hread, hgrow 6 (by decide)⟩

/-! ## Underscores -/

theorem Spaced.take {c : Char} {cs : List Char} (h : Spaced c cs) (n : Nat) :
    Spaced c (cs.take n) := by
  rw [Spaced, ← List.take_succ_cons]
  exact List.IsChain.take h (n + 1)

theorem escapeChar_ne_nil (c : Char) : escapeChar c ≠ [] := by
  rcases escapeChar_cases c with ⟨-, h⟩ | ⟨-, h⟩ | ⟨-, h⟩
  · rw [h]
    exact List.cons_ne_nil _ _
  · rw [h]
    intro hnil
    have hpos : 0 < (String.utf8EncodeChar c).length := by
      rw [String.length_utf8EncodeChar]
      exact c.utf8Size_pos
    obtain ⟨b, hb⟩ := List.exists_mem_of_length_pos hpos
    exact List.cons_ne_nil _ _ (List.flatMap_eq_nil_iff.mp hnil b hb)
  · rw [h]
    exact List.cons_ne_nil _ _

/-- A character that belongs to no escape stands for itself only, and the underscore for the space
as well. -/
theorem not_mem_escapeChar {c d : Char} (hd : d ∉ '%' :: capitalHexDigits) (hcd : c ≠ d)
    (hspace : d = '_' → c ≠ ' ') : d ∉ escapeChar c := by
  intro h
  rw [List.mem_cons, not_or] at hd
  rw [← List.flatMap_singleton escapeChar c] at h
  rcases mem_escape h with ⟨hunderscore, hmem⟩ | hsign | hdigit | ⟨hmem, -, -⟩
  · exact hspace hunderscore (List.mem_singleton.mp hmem).symm
  · exact hd.1 hsign
  · exact hd.2 hdigit
  · exact hcd (List.mem_singleton.mp hmem).symm

/-- Characters other than a given one keep two of that character apart. -/
theorem isChain_append_of_not_mem {b c : Char} {as bs : List Char} (has : c ∉ as) (hne : as ≠ [])
    (hbs : ∀ a ≠ c, (a :: bs).IsChain fun a b => ¬(a = c ∧ b = c)) :
    (b :: (as ++ bs)).IsChain fun a b => ¬(a = c ∧ b = c) := by
  induction as generalizing b with
  | nil => contradiction
  | cons a as ih =>
    rw [List.mem_cons, not_or] at has
    have hrest : (a :: (as ++ bs)).IsChain fun a b => ¬(a = c ∧ b = c) := by
      rcases eq_or_ne as [] with rfl | hne
      · exact hbs a (Ne.symm has.1)
      · exact ih has.2 hne
    exact hrest.cons_cons fun h => has.1 h.2.symm

/-- A character that is escaped to one character, and that no other character of the text is escaped
to, does not meet itself where the text is escaped if it does not in the text; also with a character
before the text, and what this is escaped to before the other. -/
theorem isChain_escape {x y a b : Char} {cs : List Char} (hx : escapeChar x = [y])
    (hcs : ∀ c ∈ cs, c ≠ x → y ∉ escapeChar c) (hb : b = y → a = x)
    (h : (a :: cs).IsChain fun a b => ¬(a = x ∧ b = x)) :
    (b :: escape cs).IsChain fun a b => ¬(a = y ∧ b = y) := by
  induction cs generalizing a b with
  | nil => exact List.isChain_singleton b
  | cons c cs ih =>
    rw [List.forall_mem_cons] at hcs
    obtain ⟨hac, hchain⟩ := List.isChain_cons_cons.mp h
    rw [escape, List.flatMap_cons]
    by_cases hc : c = x
    · -- the one character is written here, and before it another one
      rw [hc, hx, List.singleton_append]
      exact (ih hcs.2 (fun _ => hc) hchain).cons_cons fun h => hac ⟨hb h.1, hc⟩
    · exact isChain_append_of_not_mem (hcs.1 hc) (escapeChar_ne_nil c) fun d hd =>
        ih hcs.2 (fun h => absurd h hd) hchain

theorem spaced_slug {cs : List Char} (hcs : '_' ∉ cs) (limit : Nat) :
    Spaced '_' (slug limit cs) := by
  have hwords : '_' ∉ (plainWords cs).take limit := by
    intro h
    rcases mem_plainWords (List.mem_of_mem_take h) with hspace | ⟨hmem, -, -⟩
    · contradiction
    · exact hcs hmem
  refine isChain_escape rfl (fun c hc hspace => ?_) (fun _ => rfl)
    ((spaced_plainWords cs).take limit)
  exact not_mem_escapeChar (by decide) (fun h => hwords (h ▸ hc)) fun _ => hspace

/-- Whatever is cut off the slug, one underscore at most comes to stand first, and it is dropped. -/
theorem spaced_tail {text : String} (htext : '_' ∉ text.toList) (limit : Nat) (base : String) :
    Spaced '_' (tail limit base text).toList := by
  have hchain : (dropOverlap base.toList (slug limit text.toList)).IsChain
      fun a b => ¬(a = '_' ∧ b = '_') :=
    (spaced_slug htext limit).suffix ((List.drop_suffix ..).trans (List.suffix_cons ..))
  rw [toList_tail]
  dsimp only
  split_ifs with hhead
  · obtain ⟨rest, hrest⟩ := List.head?_eq_some_iff.mp hhead
    rw [hrest] at hchain ⊢
    exact hchain
  · refine hchain.cons fun d hd h => hhead ?_
    rw [← h.2]
    exact hd

/-- A text without underscores, whatever its blanks, brackets, tags and punctuation, has a slug that
neither begins with an underscore nor has two in a row. The same holds of what an issuer puts
between the base and the number: the slug without its overlap with the base, and without the one
underscore that the cut may have laid bare. -/
theorem issue_separates (i : Issuer) (base text : String) (htext : text ≠ "")
    (hunderscore : '_' ∉ text.toList) :
    (slug i.limit text.toList).head? ≠ some '_' ∧
    ¬['_', '_'] <:+: slug i.limit text.toList ∧
    ∃ suffix n, (i.issue base text).1 =
        base ++ "__" ++ suffix ++ "__" ++ String.ofList (Nat.toDigits 10 n) ∧
      (suffix.toList =
        let rest := dropOverlap base.toList (slug i.limit text.toList)
        if rest.head? = some '_' then rest.tail else rest) ∧
      suffix.toList.head? ≠ some '_' ∧ ¬['_', '_'] <:+: suffix.toList := by
  obtain ⟨hhead, hdouble⟩ := spaced_iff.mp (spaced_slug hunderscore i.limit)
  obtain ⟨n, hissue⟩ := issue_eq i base text
  refine ⟨hhead, hdouble, tail i.limit base text, n, ?_, toList_tail i.limit base text,
    spaced_iff.mp (spaced_tail hunderscore i.limit base)⟩
  rw [hissue, if_neg htext]
  simp only [separator, String.append_assoc]

/-- Five kinds of gaps between two words, and an overlap that ends right before them. -/
theorem issue_separates_gaps :
    ((Issuer.ofSettings {}).issue "x/A" "a&nbsp;(<i> </i>\t.\u0091\x0b)!b").1 = "x/A__b__1" ∧
    ¬['_', '_'] <:+: slug 50 "a&nbsp;(<i> </i>\t.\u0091\x0b)!b".toList ∧
    dropOverlap "x/A".toList (slug 50 "a&nbsp;(<i> </i>\t.\u0091\x0b)!b".toList) = "_b".toList := by
  obtain ⟨-, hdouble, -⟩ := issue_separates (Issuer.ofSettings {}) "x/A"
    "a&nbsp;(<i> </i>\t.\u0091\x0b)!b" (by decide) (by decide +kernel)
  exact ⟨by decide +kernel, hdouble, by decide +kernel⟩

end MarkupForest.Uri
