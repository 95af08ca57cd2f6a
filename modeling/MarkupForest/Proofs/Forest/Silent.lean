import MarkupForest.Proofs.Forest.Kept
import MarkupForest.Proofs.Forest.Moves

/-!
# Moves that are not reported

A move is reported if something is kept about the moved nodes. But a move also touches nodes that
stay where they are: the section of a node depends on the children of its page, and its hash on all
that is below it. So a kept section or hash can become wrong although no move has been reported
(`stale_of_silentRun`).

It becomes wrong in no other way. As long as no move is reported, a kept section stays right unless
a heading, or a node on a later line, is taken from the children of the page, or a heading on no
later line joins them; and a kept hash stays right unless a node is moved from or to a place below
the node. The two cases of a section differ since a node that joins the children of a page comes
last: a search for headings that ends there has been through all of them, but it may go on where a
node on a later line is taken away.

## Main definitions

* `Forest.SparesSection` and `Forest.SparesContent`: a call moves nothing that the section, or the
  hash, of a node depends on;
* `Forest.CurrentIf`: the kept root is right, and so are the section and the hash under a condition
  for each.

## Main results

* `WellFormed.findSection_relocate`: the sections that a move leaves as they are;
* `Change.currentIf`: what a call that reports no move leaves right;
* `current_of_silent_run`: kept sections and hashes over a run that reports no move.
-/

namespace MarkupForest.Forest

variable {f g : Forest} {child parent m n r : NodeId} {c : Command}

/-- The call moves nothing that the section kept about the node depends on: a node that it takes
from the children of the kept root is no heading and stands on no later line, and one that it puts
there is no heading or stands on a later line. -/
def SparesSection (f : Forest) (n : NodeId) (c : Command) : Prop :=
  ∀ child parent o r, c = .move child parent → f.run c = .ok o → (f.memo n).heading ≠ none →
    (f.memo n).root = some r →
      (f.parent? child = some r → f.isHeading child = false ∧ f.line child ≤ f.line n) ∧
      (parent = r → f.isHeading child = false ∨ f.line n < f.line child)

/-- The call moves nothing that the hash kept about the node depends on: it takes no node from below
it and puts none there. -/
def SparesContent (f : Forest) (n : NodeId) (c : Command) : Prop :=
  ∀ child parent o, c = .move child parent → f.run c = .ok o → (f.memo n).fingerprint ≠ none →
    ¬f.Above n child ∧ ¬f.Above n parent

/-! ## What a move leaves as it is -/

namespace WellFormed

/-- To take a node from the children of a page changes no section of the page if the node is no
heading and stands on no later line. A node that is not among them cannot be taken from there. -/
theorem filter_takeWhile_children (hf : f.WellFormed) {line : UInt32}
    (htaken : f.parent? child = some r → f.isHeading child = false ∧ f.line child ≤ line) :
    (((f.children r).filter (· != child)).takeWhile fun c => f.line c ≤ line).filter f.isHeading =
      ((f.children r).takeWhile fun c => f.line c ≤ line).filter f.isHeading := by
  by_cases hchild : f.parent? child = some r
  · obtain ⟨hheading, hline⟩ := htaken hchild
    exact filter_takeWhile_filter _ (decide_eq_true hline) hheading
  · rw [hf.filter_children_of_parent?_ne hchild]

/-- A move keeps a section of a page if what it takes from the children of the page is no heading
and stands on no later line, and what it puts there is no heading or stands on a later line. -/
theorem findSection_relocate (hf : f.WellFormed) (hok : f.checkMove child parent = .ok ())
    {line : UInt32}
    (htaken : f.parent? child = some r → f.isHeading child = false ∧ f.line child ≤ line)
    (hput : parent = r → f.isHeading child = false ∨ line < f.line child) :
    (f.relocate child parent).findSection r line = f.findSection r line := by
  have hparent := (checkMove_eq_ok_iff.1 hok).2.2.1
  have hheading : (f.relocate child parent).isHeading = f.isHeading := by
    ext m
    simp [isHeading]
  unfold findSection
  simp only [hf.children_relocate hparent, hheading, line_relocate]
  rw [← hf.filter_takeWhile_children htaken]
  split
  next hr =>
    -- the moved node comes last, where a search that gets to it passes over it or ends
    have hlast : decide (f.line child ≤ line) = true → f.isHeading child = false := by
      intro hline
      rcases hput hr.symm with hno | hlater
      · exact hno
      · exact absurd (of_decide_eq_true hline) (UInt32.not_le.2 hlater)
    rw [filter_takeWhile_append _ hlast]
  next => rw [List.append_nil]

end WellFormed

/-! ## What a call leaves right -/

section CurrentIf

variable {A B : Prop}

/-- The root that is kept about a node is right, the section is right if `A` holds, and the hash if
`B` holds. -/
structure CurrentIf (f : Forest) (n : NodeId) (A B : Prop) : Prop where
  root : f.RootCurrent n
  heading : A → f.HeadingCurrent n
  fingerprint : B → f.FingerprintCurrent n

/-- What is kept stays right if its value stays the same. Where no root is kept, there is nothing to
stay right. -/
theorem CurrentIf.of_memo_eq (h : f.CurrentIf n A B) (hf : f.WellKept n)
    (hmemo : g.memo n = f.memo n)
    (hkept : ∀ r, (f.memo n).root = some r → f.findRoot n = .ok r →
      g.findRoot n = f.findRoot n ∧
      (A → (f.memo n).heading ≠ none → g.sectionNow n = f.sectionNow n) ∧
      (B → (f.memo n).fingerprint ≠ none → g.fingerprintNow n = f.fingerprintNow n)) :
    g.CurrentIf n A B := by
  refine ⟨?_, ?_, ?_⟩
  · intro r hr
    rw [hmemo] at hr
    rw [(hkept r hr (h.root r hr)).1, h.root r hr]
  · intro hA s hs
    rw [hmemo] at hs
    have hne : (f.memo n).heading ≠ none := by simp [hs]
    obtain ⟨r, hr⟩ := Option.ne_none_iff_exists'.1 (hf.root_of_heading hne)
    rw [(hkept r hr (h.root r hr)).2.1 hA hne, h.heading hA s hs]
  · intro hB d hd
    rw [hmemo] at hd
    have hne : (f.memo n).fingerprint ≠ none := by simp [hd]
    obtain ⟨r, hr⟩ := Option.ne_none_iff_exists'.1 (hf.root_of_fingerprint hne)
    rw [(hkept r hr (h.root r hr)).2.2 hB hne, h.fingerprint hB d hd]

theorem LearnsAll.currentIf (h : LearnsAll m f g) (hn : f.CurrentIf n A B) : g.CurrentIf n A B := by
  induction h with
  | refl => exact hn
  | tail _ hlast ih =>
    exact ⟨hlast.rootCurrent ih.root, fun hA => hlast.headingCurrent ih.root (ih.heading hA),
      fun hB => hlast.fingerprintCurrent ih.root (ih.fingerprint hB)⟩

/-- A new node changes nothing about the page of a node. -/
theorem WellFormed.currentIf_grow (hf : f.WellFormed) (hsize : f.size < UInt32.size) {kind : Kind}
    {line : UInt32} {children : List NodeId} (hfree : ∀ c ∈ children, f.IsFree c)
    (hnodup : children.Nodup) (hkept : f.WellKept n) (hn : f.CurrentIf n A B) :
    (f.grow kind line children).CurrentIf n A B := by
  refine hn.of_memo_eq hkept (memo_grow hsize n) fun r _ hroot => ?_
  have hg : (f.grow kind line children).WellFormed := hf.grow hsize hfree hnodup
  have hsame : ∀ m, f.SameTree n m → (f.grow kind line children).get? m = f.get? m :=
    fun m hm => hf.get?_grow_of_findRoot hsize hfree hroot hm
  exact ⟨hf.findRoot_congr hg hsame, fun _ _ => hf.sectionNow_congr hg hsame,
    fun _ _ => hf.fingerprintNow_congr hg hsame⟩

/-- A move that is not reported takes away no node about which something is kept. What is left to
become wrong is what the node depends on elsewhere. -/
theorem WellFormed.currentIf_relocate (hf : f.WellFormed) (hok : f.checkMove child parent = .ok ())
    (hquiet : Event.staleMove child parent ∉ f.events (.move child parent))
    (hsection : A → f.SparesSection n (.move child parent))
    (hcontent : B → f.SparesContent n (.move child parent)) (hkept : f.WellKept n)
    (hn : f.CurrentIf n A B) : (f.relocate child parent).CurrentIf n A B := by
  refine hn.of_memo_eq hkept (memo_relocate f child parent n) fun r hr hroot => ?_
  have hstays := hf.not_above_of_quiet hok hquiet (n := n) (by simp [Memo.isSet, hr])
  have hsame := hf.findRoot_relocate hok hstays
  refine ⟨hsame, fun hA hne => ?_, fun hB hne => ?_⟩
  · obtain ⟨htaken, hput⟩ := hsection hA _ _ _ r rfl (run_move hok) hne hr
    have hfound :
        (f.relocate child parent).findSection r (f.line n) = f.findSection r (f.line n) :=
      hf.findSection_relocate hok htaken hput
    rw [sectionNow, hsame, sectionNow, hroot]
    simp only [Except.map, line_relocate, hfound]
  · obtain ⟨hchild, hparent⟩ := hcontent hB _ _ _ rfl (run_move hok) hne
    have htree := hf.tree?_relocate hok (fun q hq hnq => hchild (hnq.of_parent hq)) hparent
    rw [fingerprintNow, hsame, fingerprintNow, hroot]
    simp only [Except.map, findFingerprint, revision, page?_relocate, line_relocate, markup, htree]

theorem Change.currentIf (h : Change f c g) (hf : f.Reachable) (hsize : g.size ≤ UInt32.size)
    (hquiet : ∀ child parent, Event.staleMove child parent ∉ f.events c)
    (hsection : A → f.SparesSection n c) (hcontent : B → f.SparesContent n c)
    (hn : f.CurrentIf n A B) : g.CurrentIf n A B := by
  have hwf := hf.wellFormed
  have hkept := hf.wellKept n
  cases h with
  | refused => exact hn
  | grow _ hfree hnodup =>
    rw [size_grow] at hsize
    exact hwf.currentIf_grow hsize hfree hnodup hkept hn
  | move hok => exact hwf.currentIf_relocate hok (hquiet _ _) hsection hcontent hkept hn
  | learn _ hlearns => exact hlearns.currentIf hn
  | attach _ hbare hmemo =>
    have hskel := skeleton_modify_of_bare hbare f
    exact hn.of_memo_eq hkept (memo_modify hmemo f _ n) fun _ _ _ =>
      ⟨congrFun (eq_of_skeleton_eq findRoot_skeleton (hskel _)) n,
        fun _ _ => congrFun (eq_of_skeleton_eq sectionNow_skeleton (hskel _)) n,
        fun _ _ => congrFun (eq_of_skeleton_eq fingerprintNow_skeleton (hskel _)) n⟩

/-! ## What a run leaves right -/

theorem currentIf_runAll (hf : f.Reachable) {cs : List Command}
    (hsize : (f.runAll cs).size ≤ UInt32.size)
    (hquiet : ∀ child parent, Event.staleMove child parent ∉ f.report cs)
    (hsection : A → ∀ before c, before ++ [c] <+: cs → (f.runAll before).SparesSection n c)
    (hcontent : B → ∀ before c, before ++ [c] <+: cs → (f.runAll before).SparesContent n c)
    (hn : f.CurrentIf n A B) : (f.runAll cs).CurrentIf n A B := by
  induction cs generalizing f with
  | nil => exact hn
  | cons c cs ih =>
    have hstep : (f.step c).size ≤ UInt32.size := size_step_le hsize
    have hfirst : [] ++ [c] <+: c :: cs := by simp
    -- what comes after the first call is a run of its own
    have hrest : ∀ {before d}, before ++ [d] <+: cs → (c :: before) ++ [d] <+: c :: cs :=
      fun h => by simpa using h
    refine ih (.step c hf hstep) hsize ?_ ?_ ?_ ?_
    · exact fun child parent hmem => hquiet child parent (List.mem_append_right _ hmem)
    · exact fun hA before d h => hsection hA (c :: before) d (hrest h)
    · exact fun hB before d h => hcontent hB (c :: before) d (hrest h)
    · refine (change_step f c).currentIf hf hstep ?_ ?_ ?_ hn
      · exact fun child parent hmem => hquiet child parent (List.mem_append_left _ hmem)
      · exact fun hA => hsection hA [] c hfirst
      · exact fun hB => hcontent hB [] c hfirst

end CurrentIf

/-- Over every run that reports no move, a section kept about a node is the one it stands in, as
long as no move made meanwhile takes a heading or a node on a later line from the children of the
kept root, or puts a heading there that is not on a later line; and a hash kept about a node is that
of its content, as long as no move made meanwhile takes a node from below it or puts one there. -/
theorem current_of_silent_run {cs : List Command} (hsize : (empty.runAll cs).size ≤ UInt32.size)
    (hquiet : ∀ child parent, Event.staleMove child parent ∉ empty.report cs) (n : NodeId) :
    ((∀ before c, before ++ [c] <+: cs → (empty.runAll before).SparesSection n c) →
      ∀ s, ((empty.runAll cs).memo n).heading = some s →
        (empty.runAll cs).sectionNow n = .ok s) ∧
    ((∀ before c, before ++ [c] <+: cs → (empty.runAll before).SparesContent n c) →
      ∀ d, ((empty.runAll cs).memo n).fingerprint = some d →
        (empty.runAll cs).fingerprintNow n = .ok d) := by
  have hstart := current_empty n
  have hrun := currentIf_runAll (n := n) .empty hsize hquiet id id
    ⟨hstart.root, fun _ => hstart.heading, fun _ => hstart.fingerprint⟩
  exact ⟨hrun.heading, hrun.fingerprint⟩

/-- A text is asked for its section and for its hash. -/
def joinRun : List Command :=
  [.addLeaf (.heading "H" 2) 1, .addLeaf (.text "a") 3, .addLeaf (.heading "I" 2) 4,
    .addPage ⟨.article "P", 1, 100⟩ [⟨0⟩, ⟨1⟩], .enclosingSection ⟨1⟩, .fingerprint ⟨1⟩]

/-- The next section joins the end of the page. -/
theorem current_of_silent_run_joinRun :
    (empty.runAll (joinRun ++ [.move ⟨2⟩ ⟨3⟩])).sectionNow ⟨1⟩ = .ok (some ⟨0⟩) ∧
    (empty.runAll (joinRun ++ [.move ⟨2⟩ ⟨3⟩])).fingerprintNow ⟨1⟩ =
      .ok 16001109376080986595 := by
  have hsize : (empty.runAll (joinRun ++ [.move ⟨2⟩ ⟨3⟩])).size ≤ UInt32.size := by decide +kernel
  have hquiet : empty.report (joinRun ++ [.move ⟨2⟩ ⟨3⟩]) = [] := by decide +kernel
  -- the run moves a node only at its end
  have hlast : ∀ before child parent,
      before ++ [.move child parent] <+: joinRun ++ [.move ⟨2⟩ ⟨3⟩] →
        before = joinRun ∧ child = ⟨2⟩ ∧ parent = ⟨3⟩ := by
    intro before child parent h
    rcases List.prefix_concat_iff.1 h with heq | hbefore
    · simpa using List.append_inj' heq rfl
    · have hmem : Command.move child parent ∈ joinRun := hbefore.subset (by simp)
      simp [joinRun] at hmem
  have hsilent := current_of_silent_run hsize (by simp [hquiet]) ⟨1⟩
  refine ⟨hsilent.1 ?_ _ (by decide +kernel), hsilent.2 ?_ _ (by decide +kernel)⟩
  · rintro before c h child parent o r rfl - - -
    obtain ⟨rfl, rfl, rfl⟩ := hlast before child parent h
    -- the heading is taken from nowhere, and is on a later line than the text
    have hfree : (empty.runAll joinRun).parent? ⟨2⟩ = none := by decide +kernel
    exact ⟨fun htaken => by simp [hfree] at htaken, fun _ => Or.inr (by decide +kernel)⟩
  · rintro before c h child parent o rfl - -
    obtain ⟨rfl, rfl, rfl⟩ := hlast before child parent h
    have hwf : (empty.runAll joinRun).WellFormed :=
      (Reachable.runAll .empty joinRun (by decide +kernel)).wellFormed
    rw [← hwf.mem_lineage_iff (by decide +kernel), ← hwf.mem_lineage_iff (by decide +kernel)]
    decide +kernel

/-! ## Where silence is not enough -/

/-- A text of a page is asked for its section and the page for its hash, and then the heading of the
section is moved below the text. -/
def silentRun : List Command :=
  [.addLeaf (.heading "H" 2) 1, .addLeaf (.text "a") 3, .addPage ⟨.article "P", 1, 100⟩ [⟨0⟩, ⟨1⟩],
    .enclosingSection ⟨1⟩, .fingerprint ⟨2⟩, .move ⟨0⟩ ⟨1⟩]

/-- No move of the run is reported, since nothing is kept about the heading. But the text does not
stand in the section any more, and the page has other content. -/
theorem stale_of_silentRun :
    empty.report silentRun = [] ∧
    ((empty.runAll silentRun).memo ⟨1⟩).heading = some (some ⟨0⟩) ∧
    (empty.runAll silentRun).sectionNow ⟨1⟩ = .ok none ∧
    ((empty.runAll silentRun).memo ⟨2⟩).fingerprint = some 4226063249012893706 ∧
    (empty.runAll silentRun).fingerprintNow ⟨2⟩ = .ok 6177588348704141348 := by
  decide +kernel

end MarkupForest.Forest
