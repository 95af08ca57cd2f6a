import MarkupForest.Proofs.Forest.WellFormed

/-!
# Subtrees

Going down a forest. The tree of a node is built with a bound on its height, the number of nodes of
the forest. A well-formed forest has no way down that is longer, since each step down is a step
further away from the top, so `tree?` obeys the equation of the recursion without a bound.

## Main results

* `WellFormed.tree?_eq`: the tree of a node is made of the trees of its children;
* `WellFormed.tree?_congr`: it depends on the nodes below the node only;
* `WellFormed.mem_ids_iff`: it has exactly the nodes that the node is above;
* `WellFormed.isNavigated_iff`: a search through a subtree finds out whether something is kept about
  any node below its top.
-/

namespace MarkupForest.Forest

variable {f g : Forest} {a c n p : NodeId}

/-- The number of nodes from a node up to the top of its tree. -/
def depth (f : Forest) (n : NodeId) : Nat :=
  (f.lineage n).length

namespace WellFormed

theorem depth_of_parent (hf : f.WellFormed) (hp : f.parent? n = some p) :
    f.depth n = f.depth p + 1 := by
  rw [depth, hf.lineage_of_parent hp, List.length_cons, depth]

theorem depth_pos (hf : f.WellFormed) (hn : f.contains n = true) : 0 < f.depth n := by
  rw [depth, hf.lineage_eq hn]
  exact Nat.succ_pos _

theorem depth_le_size (hf : f.WellFormed) (hn : f.contains n = true) : f.depth n ≤ f.size :=
  hf.length_climb_le hn f.size

/-- Going from a node to one of its children comes to an end. -/
theorem wellFounded_child (hf : f.WellFormed) : WellFounded fun c p => f.parent? c = some p := by
  refine Subrelation.wf ?_ (measure fun n => f.size - f.depth n).wf
  intro c p hp
  have hdepth := hf.depth_of_parent hp
  have hle := hf.depth_le_size (contains_of_parent? hp)
  change f.size - f.depth c < f.size - f.depth p
  omega

end WellFormed

/-! ## The tree of a node -/

theorem expand_succ (f : Forest) (k : Nat) (n : NodeId) :
    f.expand (k + 1) n = (f.kind? n).map fun kind =>
      .mk ⟨n, kind, f.line n⟩ ((f.children n).filterMap (f.expand k)) := by
  cases he : f.get? n <;> simp [expand, kind?, line, children, he]

namespace WellFormed

/-- A height with which the bound is not reached is enough. -/
theorem expand_succ_eq (hf : f.WellFormed) {k : Nat} (hk : f.size < k + f.depth n) :
    f.expand (k + 1) n = f.expand k n := by
  -- one level down the bound is one less and the depth one more, so their sum stays above the size
  induction k generalizing n with
  | zero =>
    have hn : f.contains n = false := by
      rw [← Bool.not_eq_true]
      intro hn
      have hle := hf.depth_le_size hn
      omega
    rw [expand_succ, kind?, get?_eq_none_iff.2 hn]
    rfl
  | succ k ih =>
    rw [expand_succ, expand_succ f k]
    have hchildren : (f.children n).filterMap (f.expand (k + 1)) =
        (f.children n).filterMap (f.expand k) := by
      apply List.filterMap_congr
      intro c hc
      apply ih
      have hdepth := hf.depth_of_parent (hf.mem_children_iff.1 hc)
      omega
    rw [hchildren]

/-- The tree of a node is the node with the trees of its children. -/
theorem tree?_eq (hf : f.WellFormed) (n : NodeId) :
    f.tree? n = (f.kind? n).map fun kind =>
      .mk ⟨n, kind, f.line n⟩ ((f.children n).filterMap f.tree?) := by
  cases hn : f.contains n with
  | true =>
    have hpos := hf.depth_pos hn
    rw [tree?, ← hf.expand_succ_eq (by omega), expand_succ]
    rfl
  | false =>
    have hnone := get?_eq_none_iff.2 hn
    rw [tree?, kind?, hnone]
    cases f.size with
    | zero => rfl
    | succ k => simp [expand, hnone]

theorem exists_tree? (hf : f.WellFormed) (hn : f.contains n = true) : ∃ t, f.tree? n = some t := by
  obtain ⟨e, he⟩ := exists_get?_eq_some hn
  rw [hf.tree?_eq, kind?, he]
  exact ⟨_, rfl⟩

/-- The tree of a node depends on the nodes below the node only. -/
theorem tree?_congr (hf : f.WellFormed) (hg : g.WellFormed)
    (hkind : ∀ m, f.Above n m → g.kind? m = f.kind? m)
    (hline : ∀ m, f.Above n m → g.line m = f.line m)
    (hchildren : ∀ m, f.Above n m → g.children m = f.children m) : g.tree? n = f.tree? n := by
  induction n using hf.wellFounded_child.induction with
  | _ n ih =>
    have hself := Above.refl f n
    have htrees : (f.children n).filterMap g.tree? = (f.children n).filterMap f.tree? := by
      apply List.filterMap_congr
      intro c hc
      have hp := hf.mem_children_iff.1 hc
      have hbelow : ∀ m, f.Above c m → f.Above n m := fun m hm => (Above.parent hp).trans hm
      exact ih c hp (fun m hm => hkind m (hbelow m hm)) (fun m hm => hline m (hbelow m hm))
        fun m hm => hchildren m (hbelow m hm)
    rw [hg.tree?_eq, hf.tree?_eq, hkind n hself, hline n hself, hchildren n hself, htrees]

end WellFormed

end MarkupForest.Forest

namespace MarkupForest.Tree

/-- The ids of all nodes of the tree, each before those of its descendants. -/
def ids (t : Tree) : List NodeId :=
  t.preorder.map (·.id)

theorem ids_mk (n : Node) (ts : List Tree) : (mk n ts).ids = n.id :: ts.flatMap ids := by
  rw [ids, preorder_mk, List.map_cons, List.map_flatMap]
  rfl

end MarkupForest.Tree

namespace MarkupForest.Forest

variable {f g : Forest} {a c n p : NodeId} {t : Tree}

namespace WellFormed

/-- The nodes of the tree of a node are the node itself and those of the trees of its children. -/
theorem mem_ids_iff_child (hf : f.WellFormed) (ht : f.tree? n = some t) :
    a ∈ t.ids ↔ a = n ∨ ∃ c u, f.parent? c = some n ∧ f.tree? c = some u ∧ a ∈ u.ids := by
  rw [hf.tree?_eq] at ht
  obtain ⟨kind, -, rfl⟩ := Option.map_eq_some_iff.1 ht
  simp only [Tree.ids_mk, List.mem_cons, List.mem_flatMap, List.mem_filterMap,
    hf.mem_children_iff]
  grind

/-- The nodes of the tree of a node are the nodes that it is above. -/
theorem mem_ids_iff (hf : f.WellFormed) (ht : f.tree? n = some t) :
    a ∈ t.ids ↔ f.Above n a := by
  constructor
  · intro ha
    induction n using hf.wellFounded_child.induction generalizing t with
    | _ n ih =>
      rcases (hf.mem_ids_iff_child ht).1 ha with rfl | ⟨c, u, hc, hu, hau⟩
      · exact Above.refl f a
      · exact (Above.parent hc).trans (ih c hc hu hau)
  · intro h
    -- the way is taken from its upper end, where the tree begins
    induction h using Relation.ReflTransGen.head_induction_on generalizing t with
    | refl => exact (hf.mem_ids_iff_child ht).2 (Or.inl rfl)
    | @head n c hc _ ih =>
      obtain ⟨u, hu⟩ := hf.exists_tree? (contains_of_parent? hc)
      exact (hf.mem_ids_iff_child ht).2 (Or.inr ⟨c, u, hc, hu, ih hu⟩)

/-- Something is kept about a node or one below it exactly if the search through its tree says so.
-/
theorem isNavigated_iff (hf : f.WellFormed) (hn : f.contains n = true) :
    f.isNavigated n = true ↔ ∃ m, f.Above n m ∧ (f.memo m).isSet = true := by
  obtain ⟨t, ht⟩ := hf.exists_tree? hn
  have hsearch : f.isNavigated n = t.ids.any fun m => (f.memo m).isSet := by
    simp [isNavigated, ht, Tree.ids, Function.comp_def]
  rw [hsearch, List.any_eq_true]
  simp only [hf.mem_ids_iff ht]

end WellFormed

end MarkupForest.Forest
