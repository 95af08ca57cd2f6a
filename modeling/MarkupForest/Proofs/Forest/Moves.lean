import MarkupForest.Proofs.Forest.Refusals
import MarkupForest.Proofs.Forest.Subtree
import MarkupForest.Tree.Contribution
import MarkupForest.Tree.Json
import MarkupForest.Tree.PlainText
import MarkupForest.Tree.Template

/-!
# Moves

What a move changes and what it leaves alone.

A move changes one parent and the lists of children of two nodes, the old parent and the new one.
The tree of a node holds one of these lists exactly if the node is above the old or the new parent,
so all other nodes have the same tree before and after. The moved node is one of them, since a move
below itself is refused: it takes its tree along as it is.

Therefore a move is forgotten as soon as the same node is moved again. What the second move looks at
is the same as before the first one, and it takes back all that the first one has done.

## Main results

* `above_relocate_iff`: a moved node is above the same nodes as before;
* `WellFormed.relocate_relocate`: of two moves of the same node, the second one counts;
* `WellFormed.tree?_relocate`: the trees that a move leaves alone;
* `last_move_wins` and `locality_of_move`: the same about calls in reachable forests.
-/

namespace MarkupForest.Forest

variable {f g : Forest} {child parent other m n : NodeId}

/-! ## Below the moved node -/

/-- What is below the moved node stays there, since the only parent that changes is its own. -/
theorem Above.relocate (h : f.Above child n) (hchild : f.contains child = true) :
    (f.relocate child parent).Above child n := by
  induction h with
  | refl => exact Above.refl _ child
  | @tail m n _ hmn ih =>
    by_cases hn : n = child
    · rw [hn]
      exact Above.refl _ child
    · refine Above.of_parent ih ?_
      rw [parent?_relocate hchild, if_neg hn]
      exact hmn

/-- Nothing comes to be below the moved node. -/
theorem Above.of_relocate (h : (f.relocate child parent).Above child n)
    (hchild : f.contains child = true) : f.Above child n := by
  induction h with
  | refl => exact Above.refl _ child
  | @tail m n _ hmn ih =>
    by_cases hn : n = child
    · rw [hn]
      exact Above.refl _ child
    · rw [IsParent, parent?_relocate hchild, if_neg hn] at hmn
      exact Above.of_parent ih hmn

/-- A moved node is above the same nodes as before. -/
theorem above_relocate_iff (hchild : f.contains child = true) :
    (f.relocate child parent).Above child n ↔ f.Above child n :=
  ⟨fun h => h.of_relocate hchild, fun h => h.relocate hchild⟩

/-! ## Moving a node again -/

/-- Forests with the same number of nodes that hold the same about each node are equal, as long as
all nodes have ids. -/
theorem ext_get? (hsize : f.size ≤ UInt32.size) (hg : g.size = f.size)
    (h : ∀ n, g.get? n = f.get? n) : g = f := by
  have hentries : g.entries = f.entries := by
    apply Array.ext_getElem?
    intro i
    by_cases hi : i < f.size
    · have hindex : (NodeId.ofIndex i).index = i := NodeId.index_ofIndex (hi.trans_le hsize)
      simpa only [get?, hindex] using h (.ofIndex i)
    · have hi' : ¬i < g.size := hg ▸ hi
      rw [Array.getElem?_eq_none (Nat.not_lt.1 hi), Array.getElem?_eq_none (Nat.not_lt.1 hi')]
  cases f
  cases g
  exact congrArg Forest.mk hentries

namespace WellFormed

/-- What a move does to what is held about a node. In a well-formed forest the moved node can be
taken from the children of every node, as it is a child of its own parent only. -/
theorem get?_relocate (hf : f.WellFormed) (child parent n : NodeId) :
    (f.relocate child parent).get? n = (f.get? n).map fun e =>
      { e with
        children := e.children.filter (· != child) ++ if n = parent then [child] else []
        parent := if n = child then some parent else e.parent } := by
  rw [Forest.get?_relocate]
  refine Option.map_congr fun e he => ?_
  split
  · rfl
  next hp =>
    have hchildren : f.children n = e.children := by simp [children, he]
    rw [← hchildren, hf.filter_children_of_parent?_ne hp]

/-- Of two moves of the same node, the second one counts. -/
theorem relocate_relocate (hf : f.WellFormed) (hsize : f.size ≤ UInt32.size)
    (hok : f.checkMove child parent = .ok ()) :
    (f.relocate child parent).relocate child other = f.relocate child other := by
  refine ext_get? (by simpa using hsize) (by simp) fun n => ?_
  rw [(hf.relocate hok).get?_relocate, hf.get?_relocate, hf.get?_relocate, Option.map_map]
  refine Option.map_congr fun e _ => ?_
  -- the second move takes out again what the first one has put at the end of a list
  have hlist : (e.children.filter (· != child) ++ if n = parent then [child] else []).filter
      (· != child) = e.children.filter (· != child) := by
    split <;> simp
  have hparent : (if n = child then some other
      else if n = child then some parent else e.parent) =
        if n = child then some other else e.parent := by
    split <;> rfl
  simp only [Function.comp_apply, hlist, hparent]

/-- A move changes nothing that the check of another move of the same node looks at. -/
theorem checkMove_relocate (hf : f.WellFormed) (hok : f.checkMove child parent = .ok ()) :
    (f.relocate child parent).checkMove child other = f.checkMove child other := by
  have hchild := (checkMove_eq_ok_iff.1 hok).1
  have hcontains : ∀ n, (f.relocate child parent).contains n = f.contains n := fun n => by
    simp [contains]
  rw [checkMove, checkMove, hcontains, hcontains, isPage_relocate]
  cases hother : f.contains other with
  | false => rfl
  | true =>
    have hmem : child ∈ (f.relocate child parent).lineage other ↔ child ∈ f.lineage other := by
      rw [(hf.relocate hok).mem_lineage_iff (by rw [hcontains, hother]), hf.mem_lineage_iff hother,
        above_relocate_iff hchild]
    simp only [List.contains_iff_mem, hmem]

/-- A move changes nothing that makes another move of the same node be reported. -/
theorem isNavigated_relocate (hf : f.WellFormed) (hok : f.checkMove child parent = .ok ()) :
    (f.relocate child parent).isNavigated child = f.isNavigated child := by
  have hchild := (checkMove_eq_ok_iff.1 hok).1
  have hchild' : (f.relocate child parent).contains child = true := by simpa [contains] using hchild
  rw [Bool.eq_iff_iff, (hf.relocate hok).isNavigated_iff hchild', hf.isNavigated_iff hchild]
  simp only [above_relocate_iff hchild, memo_relocate]

end WellFormed

/-- A move that succeeds has passed the check, and has moved the node. -/
theorem relocate_of_run_move {o : Outcome} (h : f.run (.move child parent) = .ok o) :
    f.checkMove child parent = .ok () ∧ o.forest = f.relocate child parent := by
  have hok := checkMove_of_run_eq_ok h
  rw [run_move hok] at h
  cases h
  exact ⟨hok, rfl⟩

/-- In every reachable forest, after a move of a node any move of the same node does what it would
have done without the first one: it is refused for the same reason, or it succeeds, reports the same
and leads to the same forest. A move that is made twice does nothing the second time. -/
theorem last_move_wins {o : Outcome} (hf : f.Reachable) (h : f.run (.move child parent) = .ok o) :
    (∀ other, o.forest.run (.move child other) = f.run (.move child other)) ∧
    o.forest.run (.move child parent) = .ok o ∧ o.forest.step (.move child parent) = o.forest := by
  have hwf := hf.wellFormed
  obtain ⟨hok, hforest⟩ := relocate_of_run_move h
  have hagain : ∀ other, o.forest.run (.move child other) = f.run (.move child other) := by
    intro other
    rw [hforest, run_move_eq, run_move_eq, hwf.checkMove_relocate hok, hwf.isNavigated_relocate hok,
      hwf.relocate_relocate hf.size_le hok]
  have hsame : o.forest.run (.move child parent) = .ok o := by rw [hagain, h]
  exact ⟨hagain, hsame, step_of_ok hsame⟩

/-- A row of a cell with three texts and a call of a template. -/
def sampleRow : List Command :=
  [.addLeaf (.text "a") 1, .addLeaf (.text "b") 1, .addLeaf (.text "c") 1,
    .addParent .tableCell 1 [⟨0⟩, ⟨1⟩, ⟨2⟩], .addLeaf (.template (.template "T")) 2,
    .addParent .tableRow 1 [⟨3⟩, ⟨4⟩]]

/-- After the cell has been moved into the template, it still cannot be moved below one of its
texts, and moving it back to the row puts it behind the template, where it would be without the
first move. -/
theorem last_move_wins_sampleRow :
    ∃ o, (empty.runAll sampleRow).run (.move ⟨3⟩ ⟨4⟩) = .ok o ∧
      o.forest.run (.move ⟨3⟩ ⟨1⟩) = .error (.refused (.cycle ⟨3⟩ ⟨1⟩)) ∧
      o.forest.run (.move ⟨3⟩ ⟨5⟩) = (empty.runAll sampleRow).run (.move ⟨3⟩ ⟨5⟩) ∧
      (o.forest.step (.move ⟨3⟩ ⟨5⟩)).children ⟨5⟩ = [⟨4⟩, ⟨3⟩] ∧
      o.forest.step (.move ⟨3⟩ ⟨4⟩) = o.forest := by
  have hreach : (empty.runAll sampleRow).Reachable := .runAll .empty _ (by decide +kernel)
  have hok : (empty.runAll sampleRow).checkMove ⟨3⟩ ⟨4⟩ = .ok () := by decide +kernel
  obtain ⟨hagain, -, hsame⟩ := last_move_wins hreach (run_move hok)
  refine ⟨_, run_move hok, (hagain ⟨1⟩).trans rfl, hagain ⟨5⟩, ?_, hsame⟩
  rw [step, hagain ⟨5⟩]
  rfl

/-! ## Trees that a move leaves alone -/

namespace WellFormed

/-- A move keeps the tree of a node unless the node is above the old or the new parent. -/
theorem tree?_relocate (hf : f.WellFormed) (hok : f.checkMove child parent = .ok ())
    (hold : ∀ q, f.parent? child = some q → ¬f.Above n q) (hnew : ¬f.Above n parent) :
    (f.relocate child parent).tree? n = f.tree? n := by
  refine hf.tree?_congr (hf.relocate hok) (fun m _ => kind?_relocate f _ _ m)
    (fun m _ => line_relocate f _ _ m) fun m hm => ?_
  -- neither of the two lists that change belongs to a node of the tree
  have hm_old : f.parent? child ≠ some m := fun hp => hold m hp hm
  have hm_new : m ≠ parent := fun h => hnew (h ▸ hm)
  rw [Forest.children_relocate (checkMove_eq_ok_iff.1 hok).2.2.1, if_neg hm_old, if_neg hm_new,
    List.append_nil]

/-- No node of the moved tree is above the old or the new parent. -/
theorem not_above_of_moved (hf : f.WellFormed) (hok : f.checkMove child parent = .ok ())
    (hn : f.Above child n) :
    (∀ q, f.parent? child = some q → ¬f.Above n q) ∧ ¬f.Above n parent := by
  refine ⟨fun q hq hnq => hf.not_above_parent hq (hn.trans hnq), fun hnp => ?_⟩
  exact (hf.checkMove_eq_ok_iff_above.1 hok).2.2.2 (hn.trans hnp)

/-- A move takes the moved node from the children of its old parent, where it is there, and puts it
at the end of those of the new one; the others keep their order. -/
theorem children_relocate_eq (hf : f.WellFormed) (hparent : f.contains parent = true) (n : NodeId) :
    (f.relocate child parent).children n =
      if n = parent then (f.children n).erase child ++ [child]
      else if f.parent? child = some n then (f.children n).erase child
      else f.children n := by
  rw [Forest.children_relocate hparent, (hf.nodup_children n).erase_eq_filter]
  by_cases hn : n = parent
  · rw [if_pos hn, if_pos hn]
    split
    · rfl
    next hold =>
      have hmem : child ∉ f.children n := fun h => hold (hf.mem_children_iff.1 h)
      rw [← (hf.nodup_children n).erase_eq_filter, List.erase_of_not_mem hmem]
  · rw [if_neg hn, if_neg hn, List.append_nil]

end WellFormed

theorem annotations_relocate (f : Forest) (child parent n : NodeId) :
    (f.relocate child parent).annotations n = f.annotations n := by
  cases h : f.get? n <;> simp [annotations, get?_relocate, h]

theorem records_relocate (f : Forest) (child parent n : NodeId) :
    (f.relocate child parent).records n = f.records n := by
  cases h : f.get? n <;> simp [records, get?_relocate, h]

/-- In every reachable forest, a move changes the parent of the moved node, takes the node from the
children of its old parent, keeping the order of the others, and puts it at the end of the children
of the new one; it changes nothing else that the forest holds. Every node that is neither the old or
the new parent nor above one of them, such as every node of the moved tree, has the same markup,
plain text, contributed text, JSON text, templates and arguments as before. -/
theorem locality_of_move {o : Outcome} (hf : f.Reachable)
    (h : f.run (.move child parent) = .ok o) :
    (∀ n, o.forest.parent? n = if n = child then some parent else f.parent? n) ∧
    (∀ n, o.forest.children n =
      if n = parent then (f.children n).erase child ++ [child]
      else if f.parent? child = some n then (f.children n).erase child
      else f.children n) ∧
    (o.forest.size = f.size ∧ ∀ n, o.forest.kind? n = f.kind? n ∧ o.forest.line n = f.line n ∧
      o.forest.memo n = f.memo n ∧ o.forest.annotations n = f.annotations n ∧
      o.forest.records n = f.records n) ∧
    (∀ n, f.Above child n →
      (∀ q, f.parent? child = some q → ¬f.Above n q) ∧ ¬f.Above n parent) ∧
    ∀ n, f.contains n = true → (∀ q, f.parent? child = some q → ¬f.Above n q) →
      ¬f.Above n parent →
      ∃ t u, f.tree? n = some t ∧ o.forest.tree? n = some u ∧
        u.markup = t.markup ∧ u.plainText = t.plainText ∧ u.contribution = t.contribution ∧
        u.toJson.compact = t.toJson.compact ∧
        (∀ names, u.templates names = t.templates names ∧
          u.templateTitles names = t.templateTitles names ∧
          u.callsTemplate names = t.callsTemplate names) ∧
        ∀ key, o.forest.argument? n key = f.argument? n key := by
  have hwf := hf.wellFormed
  obtain ⟨hok, hforest⟩ := relocate_of_run_move h
  rw [hforest]
  obtain ⟨hchild, -, hparent, -⟩ := checkMove_eq_ok_iff.1 hok
  refine ⟨parent?_relocate hchild, hwf.children_relocate_eq hparent,
    ⟨size_relocate f _ _, fun n => ?_⟩, fun n hn => hwf.not_above_of_moved hok hn,
    fun n hn hold hnew => ?_⟩
  · exact ⟨kind?_relocate f _ _ n, line_relocate f _ _ n, memo_relocate f _ _ n,
      annotations_relocate f _ _ n, records_relocate f _ _ n⟩
  · obtain ⟨t, ht⟩ := hwf.exists_tree? hn
    have htree := hwf.tree?_relocate hok hold hnew
    have hchildren : (f.relocate child parent).children n = f.children n := by
      have hne : n ≠ parent := fun hp => hnew (hp ▸ Above.refl f n)
      have hnot : f.parent? child ≠ some n := fun hp => hold n hp (Above.refl f n)
      rw [hwf.children_relocate_eq hparent, if_neg hne, if_neg hnot]
    refine ⟨t, t, ht, htree.trans ht, rfl, rfl, rfl, rfl, fun _ => ⟨rfl, rfl, rfl⟩, fun key => ?_⟩
    simp only [argument?, kind?_relocate, hchildren]

/-- A text is moved out of the middle of its cell into a template. The cell keeps the order of the
others, and the text is read as before. -/
theorem locality_of_move_sampleRow :
    ∃ o, (empty.runAll sampleRow).run (.move ⟨1⟩ ⟨4⟩) = .ok o ∧
      o.forest.children ⟨3⟩ = [⟨0⟩, ⟨2⟩] ∧ o.forest.children ⟨4⟩ = [⟨1⟩] ∧
      ∃ t u, (empty.runAll sampleRow).tree? ⟨1⟩ = some t ∧ o.forest.tree? ⟨1⟩ = some u ∧
        u.toJson.compact = t.toJson.compact := by
  have hreach : (empty.runAll sampleRow).Reachable := .runAll .empty _ (by decide +kernel)
  have hok : (empty.runAll sampleRow).checkMove ⟨1⟩ ⟨4⟩ = .ok () := by decide +kernel
  obtain ⟨-, hchildren, -, hmoved, hread⟩ := locality_of_move hreach (run_move hok)
  obtain ⟨hold, hnew⟩ := hmoved ⟨1⟩ (Above.refl _ _)
  obtain ⟨t, u, ht, hu, -, -, -, hjson, -⟩ := hread ⟨1⟩ (by decide +kernel) hold hnew
  exact ⟨_, run_move hok, (hchildren ⟨3⟩).trans (by decide +kernel),
    (hchildren ⟨4⟩).trans (by decide +kernel), t, u, ht, hu, hjson⟩

end MarkupForest.Forest
