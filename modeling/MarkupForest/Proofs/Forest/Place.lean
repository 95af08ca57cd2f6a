import MarkupForest.Proofs.Forest.Subtree
import MarkupForest.Proofs.Lists

/-!
# The place of a node

What the questions about the place of a node ask for, read off the forest as it stands: nothing that
has been kept is looked at.

All of it depends on the tree that the node belongs to and on no other node. The root and the section
depend on the top of that tree and on its children, the hash on what is below the node.

## Main definitions

* `Forest.SameTree`: two nodes have the same top;
* `Forest.sectionNow`, `Forest.fingerprintNow` and their companions: the answers as the forest stands;
* `Forest.answerNow`: the same for the calls that ask.

## Main results

* `WellFormed.findRoot_eq_ok_iff`: what it means to belong to a page;
* `WellFormed.findRoot_congr`, `WellFormed.sectionNow_congr`, `WellFormed.fingerprintNow_congr`: the
  place of a node is a matter of its tree;
* `WellFormed.get?_grow_of_findRoot` and `WellFormed.get?_relocate_of_not_sameTree`: the trees that a
  change leaves alone.
-/

namespace MarkupForest.Forest

variable {f g : Forest} {a n r : NodeId}

/-! ## Trees of a forest -/

/-- Two nodes are in the same tree: the same node without a parent is above both. -/
def SameTree (f : Forest) (a n : NodeId) : Prop :=
  ∃ t, f.parent? t = none ∧ f.Above t a ∧ f.Above t n

namespace WellFormed

theorem sameTree_iff_top_eq (hf : f.WellFormed) : f.SameTree a n ↔ f.top a = f.top n := by
  constructor
  · rintro ⟨t, ht, ha, hn⟩
    rw [hf.top_eq_iff.2 ⟨ha, ht⟩, hf.top_eq_iff.2 ⟨hn, ht⟩]
  · intro h
    exact ⟨f.top a, (hf.above_top a).2, (hf.above_top a).1, h ▸ (hf.above_top n).1⟩

/-- What is above a node is in its tree. -/
theorem sameTree_of_above (hf : f.WellFormed) (h : f.Above a n) : f.SameTree n a :=
  hf.sameTree_iff_top_eq.2 (hf.top_of_above h)

/-- What is below a node is in its tree. -/
theorem sameTree_of_below (hf : f.WellFormed) (h : f.Above n a) : f.SameTree n a :=
  hf.sameTree_iff_top_eq.2 (hf.top_of_above h).symm

/-- A node belongs to the page at the top of its tree. -/
theorem findRoot_eq_ok_iff (hf : f.WellFormed) :
    f.findRoot n = .ok r ↔ f.Above r n ∧ f.parent? r = none ∧ f.isPage r = true := by
  rw [findRoot]
  constructor
  · intro h
    split at h
    next hpage =>
      obtain rfl := Except.ok.inj h
      exact ⟨(hf.above_top n).1, (hf.above_top n).2, hpage⟩
    next => cases h
  · rintro ⟨habove, htop, hpage⟩
    rw [hf.top_eq_iff.2 ⟨habove, htop⟩, if_pos hpage]

end WellFormed

/-! ## Answers as the forest stands -/

/-- The section a node stands in. -/
def sectionNow (f : Forest) (n : NodeId) : Except Refusal (Option NodeId) :=
  (f.findRoot n).map fun r => f.findSection r (f.line n)

/-- The hash of the content of a node. -/
def fingerprintNow (f : Forest) (n : NodeId) : Except Refusal UInt64 :=
  (f.findRoot n).map fun r => f.findFingerprint r n

/-- The number of a node. -/
def identNow (f : Forest) (n : NodeId) : Except Refusal Int64 :=
  match f.pageNumber? n with
  | some id => .ok id
  | none => (f.fingerprintNow n).map numberOf

/-- A node that is no page has no number of its own. -/
theorem pageNumber?_of_isPage_eq_false (h : f.isPage n = false) : f.pageNumber? n = none := by
  rw [isPage, Option.isSome_eq_false_iff, Option.isNone_iff_eq_none] at h
  rw [pageNumber?, h, Option.map_none]

/-- The address of the page of a node. -/
def pageAddressNow (f : Forest) (n : NodeId) : Except Refusal String :=
  (f.findRoot n).map fun r => ((f.page? r).map revisionAddress).getD ""

/-- The address of a node. -/
def addressNow (f : Forest) (n : NodeId) : Except Refusal String :=
  (f.findRoot n).map fun r => ((f.page? r).map revisionAddress).getD "" ++
    f.addressFragment (f.line n) (f.findSection r (f.line n))

/-- The answer to a question about a node that has to be there. -/
def answerAbout {α : Type} (f : Forest) (n : NodeId) (fail : Refusal → Failure)
    (answer : α → Answer) (q : Except Refusal α) : Except Failure Answer :=
  if f.contains n then (q.map answer).mapError fail else .error (.noSuchNode n)

/-- A question about a node that is there, to which the answer is known. -/
theorem answerAbout_of_ok {α : Type} {fail : Refusal → Failure} {answer : α → Answer} {x : α}
    {result : Except Refusal α} (hn : f.contains n = true) (hresult : result = .ok x) :
    f.answerAbout n fail answer result = .ok (answer x) := by
  rw [answerAbout, if_pos hn, hresult, Except.map, Except.mapError]

/-- The answer to a question from the forest as it stands. Calls that ask nothing are only told that
they are done. -/
def answerNow (f : Forest) : Command → Except Failure Answer
  | .tryRoot n => f.answerAbout n .refused .node (f.findRoot n)
  | .root n => f.answerAbout n .noPage .node (f.findRoot n)
  | .enclosingSection n => f.answerAbout n .noPage .node? (f.sectionNow n)
  | .fingerprint n => f.answerAbout n .noPage .hash (f.fingerprintNow n)
  | .ident n => f.answerAbout n .noPage .ident (f.identNow n)
  | .pageAddress n => f.answerAbout n .noPage .text (f.pageAddressNow n)
  | .address n => f.answerAbout n .noPage .text (f.addressNow n)
  | _ => .ok .done

/-! ## The place of a node is a matter of the shape of the forest -/

section Skeleton

@[simp] theorem findRoot_skeleton (f : Forest) : f.skeleton.findRoot = f.findRoot := by
  funext n
  simp [findRoot]

@[simp] theorem findSection_skeleton (f : Forest) : f.skeleton.findSection = f.findSection := by
  funext r line
  simp [findSection]

@[simp] theorem findFingerprint_skeleton (f : Forest) :
    f.skeleton.findFingerprint = f.findFingerprint := by
  funext r n
  simp [findFingerprint, revision, markup]

@[simp] theorem addressFragment_skeleton (f : Forest) :
    f.skeleton.addressFragment = f.addressFragment := by
  funext line s
  cases s <;> simp [addressFragment]

@[simp] theorem sectionNow_skeleton (f : Forest) : f.skeleton.sectionNow = f.sectionNow := by
  funext n
  simp [sectionNow]

@[simp] theorem fingerprintNow_skeleton (f : Forest) :
    f.skeleton.fingerprintNow = f.fingerprintNow := by
  funext n
  simp [fingerprintNow]

theorem answerNow_skeleton (f : Forest) : f.skeleton.answerNow = f.answerNow := by
  funext c
  cases c <;> simp [answerNow, answerAbout, identNow, pageNumber?, pageAddressNow, addressNow]

end Skeleton

/-! ## The place of a node is a matter of its tree -/

namespace WellFormed

/-- The top of a tree stays what it is if the nodes above a node keep their parents. -/
theorem top_congr (hf : f.WellFormed) (hg : g.WellFormed)
    (h : ∀ m, f.Above m n → g.parent? m = f.parent? m) : g.top n = f.top n := by
  obtain ⟨habove, htop⟩ := hf.above_top n
  exact hg.top_eq_iff.2 ⟨habove.congr h, (h _ habove).trans htop⟩

end WellFormed

/-- The section of a line on a page depends on the page's children, and on their kinds and lines. -/
theorem findSection_congr {line : UInt32} (hr : g.children r = f.children r)
    (hc : ∀ c ∈ f.children r, g.get? c = f.get? c) :
    g.findSection r line = f.findSection r line := by
  have hline : (f.children r).takeWhile (fun c => g.line c ≤ line) =
      (f.children r).takeWhile fun c => f.line c ≤ line := by
    apply takeWhile_congr
    intro c hmem
    rw [Forest.line, hc c hmem, Forest.line]
  have hheading : ((f.children r).takeWhile fun c => f.line c ≤ line).filter g.isHeading =
      ((f.children r).takeWhile fun c => f.line c ≤ line).filter f.isHeading := by
    apply List.filter_congr
    intro c hmem
    rw [isHeading, kind?, hc c ((List.takeWhile_sublist _).subset hmem), isHeading, kind?]
  rw [findSection, hr, hline, hheading, findSection]

namespace WellFormed

section SameTree

variable (hf : f.WellFormed) (hg : g.WellFormed) (h : ∀ m, f.SameTree n m → g.get? m = f.get? m)
include hf hg h

theorem findRoot_congr : g.findRoot n = f.findRoot n := by
  have htop : g.top n = f.top n := hf.top_congr hg fun m hm => by
    rw [parent?, h m (hf.sameTree_of_above hm), parent?]
  have hpage : g.isPage (f.top n) = f.isPage (f.top n) := by
    rw [isPage, page?, kind?, h _ (hf.sameTree_of_above (hf.above_top n).1), isPage, page?, kind?]
  rw [findRoot, htop, hpage, findRoot]

theorem sectionNow_congr : g.sectionNow n = f.sectionNow n := by
  rw [sectionNow, hf.findRoot_congr hg h, sectionNow]
  cases hroot : f.findRoot n with
  | error e => simp only [Except.map]
  | ok r =>
    obtain ⟨habove, -, -⟩ := hf.findRoot_eq_ok_iff.1 hroot
    have hline : g.line n = f.line n := by
      rw [Forest.line, h n (hf.sameTree_of_above (Above.refl f n)), Forest.line]
    have hchildren : g.children r = f.children r := by
      rw [children, h r (hf.sameTree_of_above habove), children]
    have hsection : g.findSection r (f.line n) = f.findSection r (f.line n) := by
      apply findSection_congr hchildren
      intro c hc
      -- the children of the page are in the tree of the page, which is the tree of the node
      have htop : f.top n = f.top c := by
        rw [hf.top_of_above habove, hf.top_of_parent (hf.mem_children_iff.1 hc)]
      exact h c (hf.sameTree_iff_top_eq.2 htop)
    simp only [Except.map, hline, hsection]

theorem fingerprintNow_congr : g.fingerprintNow n = f.fingerprintNow n := by
  rw [fingerprintNow, hf.findRoot_congr hg h, fingerprintNow]
  cases hroot : f.findRoot n with
  | error e => simp only [Except.map]
  | ok r =>
    obtain ⟨habove, -, -⟩ := hf.findRoot_eq_ok_iff.1 hroot
    have hline : g.line n = f.line n := by
      rw [Forest.line, h n (hf.sameTree_of_above (Above.refl f n)), Forest.line]
    have hrevision : g.revision r = f.revision r := by
      rw [revision, page?, kind?, h r (hf.sameTree_of_above habove), revision, page?, kind?]
    have htree : g.tree? n = f.tree? n := by
      have hbelow : ∀ m, f.Above n m → g.get? m = f.get? m := fun m hm =>
        h m (hf.sameTree_of_below hm)
      apply hf.tree?_congr hg <;> intro m hm
      · rw [kind?, hbelow m hm, kind?]
      · rw [Forest.line, hbelow m hm, Forest.line]
      · rw [children, hbelow m hm, children]
    have hhash : g.findFingerprint r n = f.findFingerprint r n := by
      rw [findFingerprint, hrevision, hline, markup, htree, findFingerprint, markup]
    simp only [Except.map, hhash]

end SameTree

/-! ## Trees that a change leaves alone -/

/-- The tree of a page is closed: its top is never adopted, and its other nodes have parents, so a
new node takes nothing from it. -/
theorem get?_grow_of_findRoot (hf : f.WellFormed) (hsize : f.size < UInt32.size) {kind : Kind}
    {line : UInt32} {children : List NodeId} (hfree : ∀ c ∈ children, f.IsFree c)
    (hroot : f.findRoot n = .ok r) {m : NodeId} (hm : f.SameTree n m) :
    (f.grow kind line children).get? m = f.get? m := by
  obtain ⟨habove, hparent, hpage⟩ := hf.findRoot_eq_ok_iff.1 hroot
  have htop : f.top m = r := by
    rw [← hf.sameTree_iff_top_eq.1 hm]
    exact hf.top_eq_iff.2 ⟨habove, hparent⟩
  have hbelow : f.Above r m := (hf.top_eq_iff.1 htop).1
  have hnew : m ≠ f.nextId :=
    ne_nextId_of_contains hsize (contains_below hbelow (contains_of_isPage hpage))
  have hadopted : m ∉ children := by
    intro hmem
    -- an adopted node would be the top of its own tree, but the top is a page
    rw [top_of_parent?_eq_none (hfree m hmem).parent?_eq_none] at htop
    have hnot := (hfree m hmem).isPage_eq_false
    rw [htop, hpage] at hnot
    exact absurd hnot (by simp)
  rw [get?_grow hsize, if_neg hnew, if_neg hadopted]

/-- A move changes nodes of the tree that it takes from and of the tree that it adds to, and no
others. -/
theorem get?_relocate_of_not_sameTree (hf : f.WellFormed) {child parent m : NodeId}
    (hchild : ¬f.SameTree child m) (hparent : ¬f.SameTree parent m) :
    (f.relocate child parent).get? m = f.get? m := by
  have hne : m ≠ child := by
    rintro rfl
    exact hchild (hf.sameTree_of_above (Above.refl f m))
  have hnew : m ≠ parent := by
    rintro rfl
    exact hparent (hf.sameTree_of_above (Above.refl f m))
  have hold : f.parent? child ≠ some m := fun hp =>
    hchild (hf.sameTree_of_above (Above.parent hp))
  simp [get?_relocate, hne, hnew, hold]

end WellFormed

end MarkupForest.Forest
