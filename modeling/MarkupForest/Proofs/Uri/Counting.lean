import MarkupForest.Proofs.Uri.Numbering
import Mathlib.Data.List.Dedup
import Mathlib.Data.List.Perm.Lattice

/-!
# Counting stems

What an issuer holds after a run of calls is a count of the stems that were asked for. The URI of a
call is numbered by this count, so it depends on the earlier calls with the same stem and on no
others: calls with different stems can be exchanged.

The tally lists stems in the order in which they first came up. Exchanging calls can change this
order, and nothing but the order; two tallies are compared by what they say about each stem.

## Main definitions

* `Tally.texts`: the texts that have come up;
* `Issuer.Same`: two issuers hold the same, up to the order of the stems.

## Main results

* `Tally.texts_add`: a tally lists each text once;
* `Issuer.stemCount_serveAll`: a new issuer has seen as many stems as the calls have;
* `Issuer.serveAll_swap`: exchanging two calls with different stems;
* `ScopedIssuer.serveAll_of_perNode`: an issuer for each call numbers every URI by one;
* `counts_of_calls`: the counter law over whole runs, in both scopes.
-/

namespace MarkupForest.Uri

/-! ## Tallies -/

namespace Tally

/-- The texts that have come up, in the order in which they first did. -/
def texts (t : Tally) : List String :=
  t.counts.map Prod.fst

theorem length_texts (t : Tally) : t.texts.length = t.size :=
  List.length_map _

theorem map_fst_bump (text : String) (counts : List (String × UInt32)) :
    (bump text counts).map Prod.fst =
      if text ∈ counts.map Prod.fst then counts.map Prod.fst
      else counts.map Prod.fst ++ [text] := by
  induction counts with
  | nil => simp [bump]
  | cons entry rest ih =>
    obtain ⟨r, n⟩ := entry
    by_cases hr : r = text
    · simp [bump, hr]
    · -- the entry is about another text, and whether the text is new shows in the rest
      rw [bump, if_neg hr, List.map_cons, ih]
      by_cases hrest : text ∈ rest.map Prod.fst <;> simp_all [Ne.symm hr]

/-- A text that has not come up yet is put at the end. -/
theorem texts_add (t : Tally) (text : String) :
    (t.add text).texts = if text ∈ t.texts then t.texts else t.texts ++ [text] :=
  map_fst_bump text t.counts

theorem nodup_texts_add {t : Tally} (h : t.texts.Nodup) (text : String) :
    (t.add text).texts.Nodup := by
  rw [texts_add]
  split
  next => exact h
  next hnew =>
    rw [← List.concat_eq_append]
    exact h.concat hnew

theorem mem_texts_add {t : Tally} {s text : String} :
    s ∈ (t.add text).texts ↔ s ∈ t.texts ∨ s = text := by
  rw [texts_add]
  split
  next hold => exact ⟨Or.inl, fun h => h.elim id fun hs => hs ▸ hold⟩
  next => simp

end Tally

/-! ## What an issuer holds after a run -/

namespace Issuer

variable {i j : Issuer} {a b : Request} {rs : List Request}

theorem serveAll_append (i : Issuer) (rs rs' : List Request) :
    i.serveAll (rs ++ rs') =
      ((i.serveAll rs).1 ++ ((i.serveAll rs).2.serveAll rs').1,
        ((i.serveAll rs).2.serveAll rs').2) := by
  induction rs generalizing i with
  | nil => rfl
  | cons r rs ih => rw [List.cons_append, serveAll, ih, serveAll, List.cons_append]

theorem limit_serveAll (i : Issuer) (rs : List Request) : (i.serveAll rs).2.limit = i.limit := by
  induction rs generalizing i with
  | nil => rfl
  | cons r rs ih => rw [serveAll, ih, serve_eq]

/-- After a run, the stems of its calls have come up as well as those of earlier ones, and each is
listed once. -/
theorem texts_serveAll (hi : i.tally.texts.Nodup) (rs : List Request) :
    (i.serveAll rs).2.tally.texts.Nodup ∧
      ∀ s, s ∈ (i.serveAll rs).2.tally.texts ↔
        s ∈ i.tally.texts ∨ s ∈ rs.map (Request.stem i.limit) := by
  induction rs generalizing i with
  | nil => simpa [serveAll] using hi
  | cons r rs ih =>
    rw [serveAll, serve_eq]
    obtain ⟨hnodup, hmem⟩ := ih (i := { i with tally := i.tally.add (r.stem i.limit) })
      (Tally.nodup_texts_add hi _)
    refine ⟨hnodup, fun s => ?_⟩
    rw [hmem, Tally.mem_texts_add, List.map_cons, List.mem_cons, or_assoc]

/-- A new issuer has seen as many stems after a run as there are different ones among the calls. -/
theorem stemCount_serveAll (hfresh : i.tally.counts = []) (rs : List Request) :
    (i.serveAll rs).2.stemCount = (rs.map (Request.stem i.limit)).dedup.length := by
  have htexts : i.tally.texts = [] := by rw [Tally.texts, hfresh, List.map_nil]
  obtain ⟨hnodup, hmem⟩ := texts_serveAll (i := i) (by rw [htexts]; exact List.nodup_nil) rs
  rw [stemCount, ← Tally.length_texts]
  -- both lists hold the stems of the calls, each of them once
  refine ((List.perm_ext_iff_of_nodup hnodup (List.nodup_dedup _)).2 fun s => ?_).length_eq
  rw [hmem, htexts, List.mem_dedup]
  simp

/-! ## Exchanging calls -/

/-- The issuers cut texts to the same length and say the same about each stem. The order in which
the stems have come up may differ. -/
def Same (i j : Issuer) : Prop :=
  i.limit = j.limit ∧ ∀ s, i.tally.counts.lookup s = j.tally.counts.lookup s

theorem Same.count_eq (h : i.Same j) (s : String) : i.tally.count s = j.tally.count s := by
  rw [Tally.count, Tally.count, h.2]

/-- Issuers that hold the same make the same URI, and hold the same after it. -/
theorem Same.serve (h : i.Same j) (r : Request) :
    (i.serve r).1 = (j.serve r).1 ∧ (i.serve r).2.Same (j.serve r).2 := by
  rw [serve_eq, serve_eq]
  refine ⟨by rw [h.1, h.count_eq], h.1, fun s => ?_⟩
  rw [Tally.lookup_add, Tally.lookup_add, h.1, h.count_eq, h.2]

theorem Same.serveAll (h : i.Same j) (rs : List Request) :
    (i.serveAll rs).1 = (j.serveAll rs).1 ∧ (i.serveAll rs).2.Same (j.serveAll rs).2 := by
  induction rs generalizing i j with
  | nil => exact ⟨rfl, h⟩
  | cons r rs ih =>
    obtain ⟨huri, hafter⟩ := h.serve r
    obtain ⟨huris, hlast⟩ := ih hafter
    exact ⟨congrArg₂ _ huri huris, hlast⟩

/-- Two calls with different stems do not see each other. -/
theorem serve_comm (hne : a.stem i.limit ≠ b.stem i.limit) :
    ((i.serve a).2.serve b).1 = (i.serve b).1 ∧ ((i.serve b).2.serve a).1 = (i.serve a).1 ∧
      ((i.serve a).2.serve b).2.Same ((i.serve b).2.serve a).2 := by
  simp only [serve_eq]
  refine ⟨?_, ?_, rfl, fun s => ?_⟩
  · rw [Tally.count_add, if_neg hne.symm, UInt32.add_zero]
  · rw [Tally.count_add, if_neg hne, UInt32.add_zero]
  · -- of the two stems, each is counted once, and nothing is said about other ones
    simp only [Tally.lookup_add, Tally.count_add]
    by_cases hsa : s = a.stem i.limit
    · subst hsa
      simp [hne]
    · by_cases hsb : s = b.stem i.limit
      · subst hsb
        simp [hsa]
      · simp [hsa, hsb]

/-- Exchanging two calls with different stems, one right after the other, exchanges their URIs,
leaves all other URIs as they are, and leads to an issuer that holds the same. -/
theorem serveAll_swap (hne : a.stem i.limit ≠ b.stem i.limit) (before after : List Request) :
    ∃ us u v ws, us.length = before.length ∧
      (i.serveAll (before ++ a :: b :: after)).1 = us ++ u :: v :: ws ∧
      (i.serveAll (before ++ b :: a :: after)).1 = us ++ v :: u :: ws ∧
      (i.serveAll (before ++ a :: b :: after)).2.Same
        (i.serveAll (before ++ b :: a :: after)).2 := by
  -- the calls before leave an issuer with the same limit, so the stems still differ
  rw [← limit_serveAll i before] at hne
  obtain ⟨hb, ha, hsame⟩ := serve_comm hne
  obtain ⟨huris, hlast⟩ := hsame.serveAll after
  refine ⟨(i.serveAll before).1, ((i.serveAll before).2.serve a).1,
    ((i.serveAll before).2.serve b).1,
    ((((i.serveAll before).2.serve a).2.serve b).2.serveAll after).1, length_serveAll i before,
    ?_, ?_, ?_⟩
  · rw [serveAll_append, serveAll, serveAll, hb]
  · rw [serveAll_append, serveAll, serveAll, ha, ← huris]
  · rw [serveAll_append, serveAll_append]
    exact hlast

/-- The number of a URI in a run of a new issuer, as long as the numbers do not run out. -/
theorem getElem?_serveAll_of_fresh (hfresh : ∀ s, i.tally.count s = 0)
    (hrs : rs.length < UInt32.size) (k : Nat) :
    (i.serveAll rs).1[k]? = rs[k]?.map fun r =>
      r.stem i.limit ++ separator ++ String.ofList (Nat.toDigits 10
        (((rs.take (k + 1)).map (Request.stem i.limit)).count (r.stem i.limit))) := by
  rw [getElem?_serveAll]
  refine Option.map_congr fun r _ => ?_
  -- a count within the run is less than the number of words, so it does not wrap
  have hbound := count_stem_lt i.limit hrs (r.stem i.limit) (k + 1)
  rw [hfresh, UInt32.zero_add, numbered, UInt32.toNat_ofNat_of_lt' hbound]

end Issuer

/-! ## A new issuer for each call -/

namespace ScopedIssuer

/-- If each call has an issuer of its own, then every URI is the first one with its stem. -/
theorem serveAll_of_perNode {i : ScopedIssuer} (hscope : i.settings.scope = .perNode)
    (rs : List (String × Option Tree)) :
    i.serveAll rs =
      (rs.map fun r => Request.stem i.settings.textLimit.toNat (.ofTree r.1 r.2) ++ "__1", i) := by
  have hissue : ∀ r : String × Option Tree, i.issueFor r.1 r.2 =
      (Request.stem i.settings.textLimit.toNat (.ofTree r.1 r.2) ++ "__1", i) := by
    intro r
    -- the issuer of this call is new, so the stem comes up for the first time
    have hserve := (Issuer.ofSettings i.settings).serve_eq (.ofTree r.1 r.2)
    rw [Issuer.count_ofSettings, UInt32.zero_add, Issuer.serve] at hserve
    simp only [issueFor, hscope, hserve, numbered, String.append_assoc]
    rfl
  induction rs with
  | nil => rfl
  | cons r rs ih => rw [serveAll, hissue, ih, List.map_cons]

end ScopedIssuer

/-- A tail is the slug without its overlap with the base and without one underscore. -/
theorem toList_tail (limit : Nat) (base text : String) :
    (tail limit base text).toList =
      let rest := dropOverlap base.toList (slug limit text.toList)
      if rest.head? = some '_' then rest.tail else rest := by
  simp only [tail]
  split
  next cs hcs => simp [hcs]
  next hcs =>
    rw [String.toList_ofList, if_neg]
    intro hhead
    obtain ⟨cs, hcs'⟩ := List.head?_eq_some_iff.1 hhead
    exact hcs cs hcs'

/-- The stem of a base and a text is the base, behind which the slug of a text that is not empty
stands without its overlap with the base and without one underscore at its start. -/
theorem stem_eq (limit : Nat) (base text : String) :
    stem limit base text =
      if text = "" then base
      else
        let rest := dropOverlap base.toList (slug limit text.toList)
        base ++ "__" ++ String.ofList (if rest.head? = some '_' then rest.tail else rest) := by
  by_cases htext : text = ""
  · simp [stem, htext]
  · have hempty : text.isEmpty = false := by simpa using htext
    simp only [stem, hempty, htext, separator, if_false, Bool.false_eq_true]
    rw [← toList_tail, String.ofList_toList]

/-- The counter law. The stem of a call depends on its base, its text and the limit alone. In a run
of a new issuer, the URI of a call is its stem with the number of calls up to this one that have the
same stem, and in the end the issuer has seen as many stems as there are different ones. Exchanging
two neighbouring calls with different stems exchanges their URIs and leads to the same tally. With a
new issuer for each call every number is one, and one issuer for all calls makes what an issuer by
itself makes. -/
theorem counts_of_calls (s : Settings) :
    (∀ base text, stem s.textLimit.toNat base text =
      if text = "" then base
      else
        let rest := dropOverlap base.toList (slug s.textLimit.toNat text.toList)
        base ++ "__" ++ String.ofList (if rest.head? = some '_' then rest.tail else rest)) ∧
    (∀ rs : List Request, rs.length < UInt32.size →
      (∀ k, ((Issuer.ofSettings s).serveAll rs).1[k]? = rs[k]?.map fun r =>
        r.stem s.textLimit.toNat ++ "__" ++ String.ofList (Nat.toDigits 10
          (((rs.take (k + 1)).map (Request.stem s.textLimit.toNat)).count
            (r.stem s.textLimit.toNat)))) ∧
      ((Issuer.ofSettings s).serveAll rs).2.stemCount =
        (rs.map (Request.stem s.textLimit.toNat)).dedup.length) ∧
    (∀ a b : Request, a.stem s.textLimit.toNat ≠ b.stem s.textLimit.toNat →
      ∀ before after, ∃ us u v ws, us.length = before.length ∧
        ((Issuer.ofSettings s).serveAll (before ++ a :: b :: after)).1 = us ++ u :: v :: ws ∧
        ((Issuer.ofSettings s).serveAll (before ++ b :: a :: after)).1 = us ++ v :: u :: ws ∧
        ((Issuer.ofSettings s).serveAll (before ++ a :: b :: after)).2.Same
          ((Issuer.ofSettings s).serveAll (before ++ b :: a :: after)).2 ∧
        ((Issuer.ofSettings s).serveAll (before ++ a :: b :: after)).2.stemCount =
          ((Issuer.ofSettings s).serveAll (before ++ b :: a :: after)).2.stemCount) ∧
    (s.scope = .perNode → ∀ rs, ((ScopedIssuer.ofSettings s).serveAll rs).1 =
      rs.map fun r => Request.stem s.textLimit.toNat (.ofTree r.1 r.2) ++ "__1") ∧
    (s.scope = .shared → ∀ rs, ((ScopedIssuer.ofSettings s).serveAll rs).1 =
      ((Issuer.ofSettings s).serveAll (rs.map fun r => .ofTree r.1 r.2)).1) := by
  refine ⟨stem_eq _, fun rs hrs => ⟨fun k => ?_, ?_⟩, fun a b hne before after => ?_,
    fun hscope rs => ?_, fun hscope rs => ?_⟩
  · exact Issuer.getElem?_serveAll_of_fresh (Issuer.count_ofSettings s) hrs k
  · exact Issuer.stemCount_serveAll rfl rs
  · obtain ⟨us, u, v, ws, hlength, hab, hba, hsame⟩ :=
      Issuer.serveAll_swap (i := Issuer.ofSettings s) hne before after
    refine ⟨us, u, v, ws, hlength, hab, hba, hsame, ?_⟩
    -- the two runs have the same stems, so there are as many different ones
    have hperm : (before ++ a :: b :: after).Perm (before ++ b :: a :: after) :=
      (List.Perm.swap b a after).append_left before
    rw [Issuer.stemCount_serveAll rfl, Issuer.stemCount_serveAll rfl]
    exact (hperm.map _).dedup.length_eq
  · rw [ScopedIssuer.serveAll_of_perNode (i := ScopedIssuer.ofSettings s) hscope]
    rfl
  · exact ScopedIssuer.serveAll_of_shared (i := ScopedIssuer.ofSettings s) hscope rs

/-- Calls with different bases can have the same stem, and are then numbered together. -/
theorem counts_of_calls_meeting :
    ((Issuer.ofSettings {}).serveAll [.ofText "x" "a", .ofText "y" "", .ofText "x__a" ""]).1[2]? =
      some "x__a__2" ∧
    ((Issuer.ofSettings {}).serveAll
      [.ofText "x" "a", .ofText "y" "", .ofText "x__a" ""]).2.stemCount = 2 ∧
    ((Issuer.ofSettings {}).serveAll [.ofText "x" "a", .ofText "y" "", .ofText "x__a" ""]).2.Same
      ((Issuer.ofSettings {}).serveAll [.ofText "y" "", .ofText "x" "a", .ofText "x__a" ""]).2 ∧
    ((ScopedIssuer.ofSettings {}).serveAll [("x", none), ("x", none)]).1 = ["x__1", "x__1"] ∧
    ((ScopedIssuer.ofSettings { scope := .shared }).serveAll [("x", none), ("x", none)]).1 =
      ["x__1", "x__2"] := by
  obtain ⟨-, hrun, hswap, hperNode, -⟩ := counts_of_calls {}
  obtain ⟨-, -, -, -, hshared⟩ := counts_of_calls { scope := .shared }
  obtain ⟨hnumber, hcount⟩ :=
    hrun [.ofText "x" "a", .ofText "y" "", .ofText "x__a" ""] (by decide)
  obtain ⟨-, -, -, -, -, -, -, hsame, -⟩ :=
    hswap (.ofText "x" "a") (.ofText "y" "") (by decide +kernel) [] [.ofText "x__a" ""]
  refine ⟨(hnumber 2).trans (by decide +kernel), hcount.trans (by decide +kernel), hsame,
    (hperNode rfl _).trans (by decide +kernel), (hshared rfl _).trans (by decide +kernel)⟩

end MarkupForest.Uri
