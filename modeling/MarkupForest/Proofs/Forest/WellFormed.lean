import MarkupForest.Proofs.Forest.Shape
import Mathlib.Data.List.Nodup
import Mathlib.Data.List.Perm.Subperm
import Mathlib.Logic.Relation
import Mathlib.Order.WellFounded

/-!
# Well-formed forests

The children of the nodes and the parents of the nodes are kept in different places. In a well-formed
forest they say the same, no node is a child twice, pages stand at the top of their trees, and going
from parent to parent comes to an end.

The functions that go up a forest are given a number of steps, the number of its nodes. In a
well-formed forest that is always enough: `lineage` and `top` obey the equations of the recursion
without a bound (`WellFormed.lineage_eq`, `WellFormed.top_of_parent`).

## Main definitions

* `Forest.IsParent` and `Forest.Above`: the link from a node to its parent, and the chain of these
  links;
* `Forest.WellFormed`: well-formed forests.

## Main results

* `WellFormed.mem_lineage_iff`: the lineage of a node is its chain of parents;
* `WellFormed.top_eq_iff`: the top of a tree is the only node without a parent on that chain;
* `WellFormed.grow` and `WellFormed.relocate`: the changes of a forest keep it well formed.
-/

namespace MarkupForest.Forest

variable {f g : Forest}

/-- The node `p` is the parent of `c`. -/
def IsParent (f : Forest) (p c : NodeId) : Prop :=
  f.parent? c = some p

/-- The node `a` is on the way from `n` to the top of its tree: it is `n` itself or one of its
ancestors. -/
def Above (f : Forest) (a n : NodeId) : Prop :=
  Relation.ReflTransGen f.IsParent a n

/-- A forest whose children and parents agree, whose pages have no parents and in which no node is
its own ancestor. -/
structure WellFormed (f : Forest) : Prop where
  /-- The children of a node are the nodes whose parent it is. -/
  mem_children_iff : ∀ {p c : NodeId}, c ∈ f.children p ↔ f.parent? c = some p
  /-- No node is a child twice. -/
  nodup_children : ∀ p : NodeId, (f.children p).Nodup
  /-- A page has no parent. -/
  parent?_of_isPage : ∀ {n : NodeId}, f.isPage n = true → f.parent? n = none
  /-- The way up comes to an end. -/
  wellFounded : WellFounded f.IsParent

/-! ## Going up -/

namespace Above

variable {a b c n p : NodeId}

theorem refl (f : Forest) (n : NodeId) : f.Above n n :=
  Relation.ReflTransGen.refl

theorem trans (hab : f.Above a b) (hbc : f.Above b c) : f.Above a c :=
  Relation.ReflTransGen.trans hab hbc

/-- What is above the parent of a node is above the node. -/
theorem of_parent (h : f.Above a p) (hp : f.parent? n = some p) : f.Above a n :=
  Relation.ReflTransGen.tail h hp

/-- A parent is above its child. -/
theorem parent (hp : f.parent? n = some p) : f.Above p n :=
  Relation.ReflTransGen.single hp

/-- What is above a node and is not the node is above its parent. -/
theorem cases_parent (h : f.Above a n) : a = n ∨ ∃ p, f.parent? n = some p ∧ f.Above a p := by
  rcases Relation.ReflTransGen.cases_tail h with heq | ⟨p, hp, hpn⟩
  · exact Or.inl heq.symm
  · exact Or.inr ⟨p, hpn, hp⟩

/-- Only the node itself is above a node without a parent. -/
theorem eq_of_parent?_eq_none (h : f.Above a n) (hn : f.parent? n = none) : a = n := by
  rcases h.cases_parent with rfl | ⟨p, hp, -⟩
  · rfl
  · rw [hn] at hp
    exact absurd hp (by simp)

/-- The way up is a single line: of two nodes on it, one is above the other. -/
theorem total (ha : f.Above a n) (hb : f.Above b n) : f.Above a b ∨ f.Above b a := by
  induction ha with
  | refl => exact Or.inr hb
  | @tail m n hm hmn ih =>
    rcases hb.cases_parent with rfl | ⟨p, hp, hbp⟩
    · exact Or.inl (Relation.ReflTransGen.tail hm hmn)
    · -- a node has one parent, so both ways go through it
      have hpm : p = m := Option.some.inj (hp.symm.trans hmn)
      exact ih (hpm ▸ hbp)

/-- There is one top at most. -/
theorem eq_of_tops (ha : f.Above a n) (hb : f.Above b n) (hat : f.parent? a = none)
    (hbt : f.parent? b = none) : a = b := by
  rcases ha.total hb with h | h
  · exact h.eq_of_parent?_eq_none hbt
  · exact (h.eq_of_parent?_eq_none hat).symm

end Above

theorem isParent_skeleton (f : Forest) : f.skeleton.IsParent = f.IsParent := by
  funext p c
  simp [IsParent]

/-- What is above a node stays above it if the parents on the way are the same. -/
theorem Above.congr {a n : NodeId} (h : f.Above a n)
    (hparent : ∀ m, f.Above m n → g.parent? m = f.parent? m) : g.Above a n := by
  induction h with
  | refl => exact Above.refl g a
  | @tail m n hm hmn ih =>
    have hn : g.parent? n = some m := (hparent n (Above.refl f n)).trans hmn
    -- what is above the parent is above the node, and keeps its parent as well
    refine Above.of_parent (ih fun k hk => hparent k (hk.of_parent hmn)) hn

namespace WellFormed

variable {a c n p : NodeId}

/-- A child is there. -/
theorem contains_child (hf : f.WellFormed) (h : c ∈ f.children p) : f.contains c = true :=
  contains_of_parent? (hf.mem_children_iff.1 h)

/-- A parent is there. -/
theorem contains_parent (hf : f.WellFormed) (h : f.parent? c = some p) : f.contains p = true :=
  contains_of_mem_children (hf.mem_children_iff.2 h)

/-- What is above a node of the forest is there. -/
theorem contains_above (hf : f.WellFormed) (h : f.Above a n) (hn : f.contains n = true) :
    f.contains a = true := by
  induction h with
  | refl => exact hn
  | tail _ hlink ih => exact ih (hf.contains_parent hlink)

/-- What is below a node of the forest is there. -/
theorem contains_below (h : f.Above a n) (ha : f.contains a = true) : f.contains n = true := by
  rcases h.cases_parent with rfl | ⟨p, hp, -⟩
  · exact ha
  · exact contains_of_parent? hp

/-- No node is its own ancestor. -/
theorem not_transGen_self (hf : f.WellFormed) (n : NodeId) :
    ¬Relation.TransGen f.IsParent n n :=
  fun h => hf.wellFounded.transGen.irrefl.irrefl n h

/-- A node is not above its parent. -/
theorem not_above_parent (hf : f.WellFormed) (hp : f.parent? n = some p) : ¬f.Above n p :=
  fun h => hf.not_transGen_self n (Relation.TransGen.tail' h hp)

/-- Above every node there is one without a parent. -/
theorem exists_above_top (hf : f.WellFormed) (n : NodeId) :
    ∃ t, f.Above t n ∧ f.parent? t = none := by
  induction n using hf.wellFounded.induction with
  | _ n ih =>
    cases hp : f.parent? n with
    | none => exact ⟨n, Above.refl f n, hp⟩
    | some p =>
      obtain ⟨t, ht, htop⟩ := ih p hp
      exact ⟨t, ht.of_parent hp, htop⟩

/-! ## Enough steps to the top -/

theorem above_of_mem_climb {k : Nat} (h : a ∈ f.climb k n) : f.Above a n := by
  induction k generalizing n with
  | zero => simp [climb] at h
  | succ k ih =>
    rw [climb, List.mem_cons] at h
    rcases h with rfl | h
    · exact Above.refl f a
    · cases hp : f.parent? n with
      | none => simp [hp] at h
      | some p =>
        rw [hp] at h
        exact (ih h).of_parent hp

theorem nodup_climb (hf : f.WellFormed) (k : Nat) (n : NodeId) : (f.climb k n).Nodup := by
  induction k generalizing n with
  | zero => simp [climb]
  | succ k ih =>
    cases hp : f.parent? n with
    | none => simp [climb, hp]
    | some p =>
      simp only [climb, hp, List.nodup_cons]
      -- coming back to the node would put it above its own parent
      exact ⟨fun h => hf.not_above_parent hp (above_of_mem_climb h), ih p⟩

/-- A way up visits different nodes of the forest, so it is not longer than their number. -/
theorem length_climb_le (hf : f.WellFormed) (hn : f.contains n = true) (k : Nat) :
    (f.climb k n).length ≤ f.size := by
  -- the numbers of the nodes on the way are different and below the size
  have hnodup : ((f.climb k n).map NodeId.index).Nodup :=
    (hf.nodup_climb k n).map fun _ _ => NodeId.index_inj.1
  have hsub : (f.climb k n).map NodeId.index ⊆ List.range f.size := by
    intro i hi
    obtain ⟨a, ha, rfl⟩ := List.mem_map.1 hi
    rw [List.mem_range, ← contains_iff]
    exact hf.contains_above (above_of_mem_climb ha) hn
  simpa using (List.subperm_of_subset hnodup hsub).length_le

end WellFormed

/-- A way up that has not used up its steps is complete. -/
theorem climb_succ_of_length_le {k : Nat} {n : NodeId} (h : (f.climb (k + 1) n).length ≤ k) :
    f.climb (k + 1) n = f.climb k n := by
  induction k generalizing n with
  | zero => simp [climb] at h
  | succ k ih =>
    rw [climb, climb]
    cases hp : f.parent? n with
    | none => rfl
    | some p =>
      rw [climb, hp] at h
      exact congrArg (n :: ·) (ih (Nat.le_of_succ_le_succ h))

namespace WellFormed

variable {a c n p : NodeId}

/-- The lineage of a node is the node followed by the lineage of its parent. -/
theorem lineage_eq (hf : f.WellFormed) (hn : f.contains n = true) :
    f.lineage n = n :: match f.parent? n with
      | some p => f.lineage p
      | none => [] := by
  -- one more step finds nothing new, and shows what the first step does
  have hsucc : f.climb (f.size + 1) n = f.climb f.size n :=
    climb_succ_of_length_le (hf.length_climb_le hn (f.size + 1))
  rw [lineage, ← hsucc, climb]
  rfl

theorem lineage_of_parent (hf : f.WellFormed) (hp : f.parent? n = some p) :
    f.lineage n = n :: f.lineage p := by
  rw [hf.lineage_eq (contains_of_parent? hp), hp]

/-- The lineage of a node consists of the nodes above it. -/
theorem mem_lineage_iff (hf : f.WellFormed) (hn : f.contains n = true) :
    a ∈ f.lineage n ↔ f.Above a n := by
  refine ⟨above_of_mem_climb, fun h => ?_⟩
  induction h with
  | refl =>
    rw [hf.lineage_eq hn]
    exact List.mem_cons_self
  | tail _ hlink ih =>
    rw [hf.lineage_of_parent hlink]
    exact List.mem_cons_of_mem _ (ih (hf.contains_parent hlink))

end WellFormed

/-- A node without a parent is the top of its tree. -/
theorem top_of_parent?_eq_none {n : NodeId} (h : f.parent? n = none) : f.top n = n := by
  rw [top, lineage]
  cases f.size with
  | zero => rfl
  | succ k => simp [climb, h]

namespace WellFormed

variable {a c n p t : NodeId}

/-- A node and its parent have the same top. -/
theorem top_of_parent (hf : f.WellFormed) (hp : f.parent? n = some p) : f.top n = f.top p := by
  have hne : f.lineage p ≠ [] := by
    rw [hf.lineage_eq (hf.contains_parent hp)]
    exact List.cons_ne_nil _ _
  rw [top, top, hf.lineage_of_parent hp, List.getLast?_cons_of_ne_nil hne]
  rw [List.getLast?_eq_some_getLast hne]
  rfl

/-- The top of a tree has no parent and is above all nodes of the tree. -/
theorem above_top (hf : f.WellFormed) (n : NodeId) :
    f.Above (f.top n) n ∧ f.parent? (f.top n) = none := by
  induction n using hf.wellFounded.induction with
  | _ n ih =>
    cases hp : f.parent? n with
    | none =>
      rw [top_of_parent?_eq_none hp]
      exact ⟨Above.refl f n, hp⟩
    | some p =>
      rw [hf.top_of_parent hp]
      exact ⟨(ih p hp).1.of_parent hp, (ih p hp).2⟩

/-- The top of a tree is the only node without a parent above a node of the tree. -/
theorem top_eq_iff (hf : f.WellFormed) : f.top n = t ↔ f.Above t n ∧ f.parent? t = none := by
  constructor
  · rintro rfl
    exact hf.above_top n
  · rintro ⟨ht, htop⟩
    exact (hf.above_top n).1.eq_of_tops ht (hf.above_top n).2 htop

/-- Nodes above each other are in the same tree. -/
theorem top_of_above (hf : f.WellFormed) (h : f.Above a n) : f.top n = f.top a :=
  hf.top_eq_iff.2 ⟨(hf.above_top a).1.trans h, (hf.above_top a).2⟩

end WellFormed

/-! ## Changes keep a forest well formed -/

theorem wellFormed_empty : empty.WellFormed where
  mem_children_iff := by
    intro p c
    simp [children, parent?, get?, empty]
  nodup_children p := by simp [children, get?, empty]
  parent?_of_isPage := by
    intro n _
    simp [parent?, get?, empty]
  wellFounded := by
    refine ⟨fun n => Acc.intro n fun p hp => ?_⟩
    simp [IsParent, parent?, get?, empty] at hp

namespace WellFormed

/-- Whether a forest is well formed is a matter of its shape. -/
theorem of_skeleton_eq (hf : f.WellFormed) (h : g.skeleton = f.skeleton) : g.WellFormed := by
  have hchildren : g.children = f.children := eq_of_skeleton_eq children_skeleton h
  have hparent : g.parent? = f.parent? := eq_of_skeleton_eq parent?_skeleton h
  refine ⟨?_, ?_, ?_, ?_⟩
  · intro p c
    rw [hchildren, hparent]
    exact hf.mem_children_iff
  · intro p
    rw [hchildren]
    exact hf.nodup_children p
  · intro n hn
    rw [hparent]
    apply hf.parent?_of_isPage
    rwa [eq_of_skeleton_eq isPage_skeleton h] at hn
  · rw [eq_of_skeleton_eq isParent_skeleton h]
    exact hf.wellFounded

section Grow

variable {kind : Kind} {line : UInt32} {children : List NodeId}

/-- A new node has no parent, and its children have no other one, so no way up becomes endless. -/
theorem wellFounded_grow (hf : f.WellFormed) (hsize : f.size < UInt32.size)
    (hchildren : ∀ c ∈ children, f.IsFree c) :
    WellFounded (f.grow kind line children).IsParent := by
  -- the new node is a top
  have hnext : Acc (f.grow kind line children).IsParent f.nextId := by
    refine Acc.intro _ fun p hp => ?_
    have hmem : f.nextId ∉ children := fun h =>
      ne_nextId_of_contains hsize (hchildren _ h).contains rfl
    rw [IsParent, parent?_grow hsize hchildren, if_neg hmem] at hp
    exact absurd rfl (ne_nextId_of_contains hsize (contains_of_parent? hp))
  refine ⟨fun n => ?_⟩
  -- from an adopted node the way leads to the new one, from the others it goes on as before
  induction n using hf.wellFounded.induction with
  | _ n ih =>
    refine Acc.intro n fun p hp => ?_
    rw [IsParent, parent?_grow hsize hchildren] at hp
    split at hp
    · exact Option.some.inj hp ▸ hnext
    · exact ih p hp

/-- Making a node from free nodes keeps a forest well formed. -/
theorem grow (hf : f.WellFormed) (hsize : f.size < UInt32.size)
    (hchildren : ∀ c ∈ children, f.IsFree c) (hnodup : children.Nodup) :
    (f.grow kind line children).WellFormed where
  mem_children_iff := by
    intro p c
    rw [children_grow hsize, parent?_grow hsize hchildren]
    by_cases hp : p = f.nextId
    · -- the children of the new node are the adopted nodes, and nothing else points to it
      rw [if_pos hp, hp]
      by_cases hc : c ∈ children
      · simp [hc]
      · rw [if_neg hc]
        refine iff_of_false hc fun h => ?_
        exact ne_nextId_of_contains hsize (hf.contains_parent h) rfl
    · -- an adopted node had no parent, so it was not among the children of any other node
      rw [if_neg hp, hf.mem_children_iff]
      by_cases hc : c ∈ children
      · rw [if_pos hc, (hchildren c hc).parent?_eq_none]
        simp [Ne.symm hp]
      · rw [if_neg hc]
  nodup_children p := by
    rw [children_grow hsize]
    split
    · exact hnodup
    · exact hf.nodup_children p
  parent?_of_isPage := by
    intro n hn
    have hmem : n ∉ children := by
      intro h
      have hpage := (hchildren n h).isPage_eq_false
      rw [isPage, page?_grow hsize (hchildren n h).contains] at hn
      rw [isPage, hn] at hpage
      exact absurd hpage (by simp)
    rw [parent?_grow hsize hchildren, if_neg hmem]
    by_cases hnext : n = f.nextId
    · exact Option.eq_none_iff_forall_ne_some.2 fun p hp =>
        ne_nextId_of_contains hsize (contains_of_parent? hp) hnext
    · apply hf.parent?_of_isPage
      rwa [isPage, page?, kind?_grow hsize, if_neg hnext] at hn
  wellFounded := hf.wellFounded_grow hsize hchildren

end Grow

section Relocate

variable {child parent : NodeId}

/-- A node is a child of its own parent only, so nothing is taken from other children. -/
theorem filter_children_of_parent?_ne (hf : f.WellFormed) {n : NodeId}
    (h : f.parent? child ≠ some n) : (f.children n).filter (· != child) = f.children n := by
  refine List.filter_eq_self.2 fun c hc => bne_iff_ne.2 ?_
  rintro rfl
  exact h (hf.mem_children_iff.1 hc)

/-- In a well-formed forest a move takes the moved node from all children, and puts it at the end of
those of its new parent. -/
theorem children_relocate (hf : f.WellFormed) (hparent : f.contains parent = true) (n : NodeId) :
    (f.relocate child parent).children n =
      (f.children n).filter (· != child) ++ if n = parent then [child] else [] := by
  rw [Forest.children_relocate hparent]
  split
  · rfl
  next hn => rw [hf.filter_children_of_parent?_ne hn]

/-- The new parent of a moved node is not below it, so no way up becomes endless. -/
theorem wellFounded_relocate (hf : f.WellFormed) (hchild : f.contains child = true)
    (hbelow : ¬f.Above child parent) : WellFounded (f.relocate child parent).IsParent := by
  -- a way up that starts outside of the moved tree never meets the moved node
  have houtside : ∀ n, ¬f.Above child n → Acc (f.relocate child parent).IsParent n := by
    intro n hn
    induction n using hf.wellFounded.induction with
    | _ n ih =>
      refine Acc.intro n fun p hp => ?_
      have hne : n ≠ child := fun h => hn (h ▸ Above.refl f n)
      rw [IsParent, parent?_relocate hchild, if_neg hne] at hp
      exact ih p hp fun h => hn (h.of_parent hp)
  refine ⟨fun n => ?_⟩
  induction n using hf.wellFounded.induction with
  | _ n ih =>
    refine Acc.intro n fun p hp => ?_
    rw [IsParent, parent?_relocate hchild] at hp
    split at hp
    · -- from the moved node on, the way is that of its new parent
      exact Option.some.inj hp ▸ houtside parent hbelow
    · exact ih p hp

/-- Moving a node that passes the checks keeps a forest well formed. -/
theorem relocate (hf : f.WellFormed) (hok : f.checkMove child parent = .ok ()) :
    (f.relocate child parent).WellFormed := by
  obtain ⟨hchild, hpage, hparent, hline⟩ := checkMove_eq_ok_iff.1 hok
  rw [hf.mem_lineage_iff hparent] at hline
  refine ⟨?_, ?_, ?_, hf.wellFounded_relocate hchild hline⟩
  · intro p c
    rw [hf.children_relocate hparent, parent?_relocate hchild, List.mem_append, List.mem_filter,
      hf.mem_children_iff]
    by_cases hc : c = child
    · by_cases hp : p = parent <;> simp [hc, hp, @eq_comm _ parent p]
    · by_cases hp : p = parent <;> simp [hc, hp]
  · intro p
    rw [hf.children_relocate hparent]
    -- the moved node has been taken out before it is put at the end
    refine List.Nodup.append ((hf.nodup_children p).filter _) (by split <;> simp) ?_
    intro c hc hc'
    have hne : c ≠ child := by simpa using (List.mem_filter.1 hc).2
    split at hc'
    · exact hne (List.mem_singleton.1 hc')
    · exact List.not_mem_nil hc'
  · intro n hn
    rw [isPage_relocate] at hn
    have hne : n ≠ child := by
      rintro rfl
      rw [hpage] at hn
      exact absurd hn (by simp)
    rw [parent?_relocate hchild, if_neg hne]
    exact hf.parent?_of_isPage hn

end Relocate

end WellFormed

end MarkupForest.Forest
