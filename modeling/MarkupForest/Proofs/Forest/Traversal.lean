import MarkupForest.Proofs.Forest.Run
import MarkupForest.Proofs.Forest.Subtree
import MarkupForest.Proofs.Lists

/-!
# Traversals

The ways through a forest, without any bound on their length. Going down is a recursion over the
children of the nodes, going up a loop from parent to parent. Neither keeps a record of the nodes it
has met, so that they end is a matter of the forest: in a reachable forest all of them do.

Both are given by rules, and to end is to be derivable from finitely many of them. The recursion may
stay out of what is below some nodes, as rendering does for the inside of templates.

## Main definitions

* `Forest.Visits`: the recursion over the children, and the nodes it meets;
* `Forest.ClimbsTo` and `Forest.Seeks`: the loops from parent to parent, one up to the top and one in
  search of a node, and the number of links they follow.

## Main results

* `WellFormed.visits_iff`: the recursion ends, and meets the nodes of the tree of the node;
* `WellFormed.nodup_ids`: no node is met twice;
* `WellFormed.climbsTo_top` and `WellFormed.seeks_lineage`: the loops end within the lineage of the
  node;
* `traversals_of_reachable`: all of this for reachable forests.
-/

namespace MarkupForest

namespace Tree

/-- The ids of the nodes of a tree in order, without those below nodes that are not entered. -/
def visited (enters : NodeId → Bool) (t : Tree) : List NodeId :=
  t.fold fun n parts => n.id :: if enters n.id then parts.flatten else []

theorem visited_mk (enters : NodeId → Bool) (n : Node) (ts : List Tree) :
    (mk n ts).visited enters =
      n.id :: if enters n.id then (ts.map (visited enters)).flatten else [] :=
  fold_mk _ n ts

/-- If all nodes are entered, then none is left out. -/
theorem visited_all (t : Tree) : t.visited (fun _ => true) = t.ids := by
  induction t with
  | mk n ts ih =>
    rw [visited_mk, ids_mk, if_pos rfl, List.map_congr_left ih, List.flatMap]

theorem flatten_visited_sublist {enters : NodeId → Bool} {ts : List Tree}
    (h : ∀ t ∈ ts, (t.visited enters).Sublist t.ids) :
    (ts.map (visited enters)).flatten.Sublist (ts.flatMap ids) := by
  induction ts with
  | nil => exact List.Sublist.refl _
  | cons t ts ih =>
    obtain ⟨ht, hts⟩ := List.forall_mem_cons.1 h
    exact ht.append (ih hts)

/-- Staying out of what is below some nodes leaves nodes out, and keeps the order of the others. -/
theorem visited_sublist (enters : NodeId → Bool) (t : Tree) :
    (t.visited enters).Sublist t.ids := by
  induction t with
  | mk n ts ih =>
    rw [visited_mk, ids_mk]
    refine List.Sublist.cons_cons n.id ?_
    split
    · exact flatten_visited_sublist ih
    · exact List.nil_sublist _

end Tree

namespace Forest

variable {f : Forest} {enters : NodeId → Bool} {a b c n p : NodeId} {t : Tree}

/-! ## Going down -/

/-- Going down from a node, to the children of every node that is entered, comes to an end and meets
the given nodes in this order. -/
inductive Visits (f : Forest) (enters : NodeId → Bool) : NodeId → List NodeId → Prop
  /-- The walk stays out of what is below the node. -/
  | pass {n : NodeId} (hn : enters n = false) : Visits f enters n [n]
  /-- The walk goes to the children of the node, one after the other. -/
  | enter {n : NodeId} {parts : List (List NodeId)} (hn : enters n = true)
      (hparts : List.Forall₂ (Visits f enters) (f.children n) parts) :
      Visits f enters n (n :: parts.flatten)

namespace WellFormed

/-- The tree of a node has one branch for each child of the node, the tree of that child. -/
theorem branches_of_tree? (hf : f.WellFormed) (ht : f.tree? n = some t) :
    t.root.id = n ∧ List.Forall₂ (fun c u => f.tree? c = some u) (f.children n) t.children := by
  rw [hf.tree?_eq] at ht
  obtain ⟨kind, -, rfl⟩ := Option.map_eq_some_iff.1 ht
  refine ⟨rfl, forall₂_filterMap fun c hc => ?_⟩
  exact hf.exists_tree? (hf.contains_child hc)

/-- Going down from a node ends, and meets the nodes of its tree. -/
theorem visits_iff (hf : f.WellFormed) (ht : f.tree? n = some t) {l : List NodeId} :
    f.Visits enters n l ↔ l = t.visited enters := by
  induction t generalizing n l with
  | mk r ts ih =>
    obtain ⟨hid, hbranches⟩ := hf.branches_of_tree? ht
    obtain rfl : r.id = n := hid
    -- what is met below the node is what is met below its children
    have hbelow : ∀ parts, List.Forall₂ (f.Visits enters) (f.children r.id) parts ↔
        parts = ts.map (Tree.visited enters) := fun parts =>
      forall₂_iff_eq_map hbranches fun u hu c m hc => ih u hu hc
    rw [Tree.visited_mk]
    constructor
    · intro h
      cases h with
      | pass hn => simp [hn]
      | enter hn hparts => simp [hn, (hbelow _).1 hparts]
    · rintro rfl
      cases hn : enters r.id with
      | false => exact .pass hn
      | true => exact .enter hn ((hbelow _).2 rfl)

/-- Of two different nodes with the same parent, neither is above the other. -/
theorem not_above_sibling (hf : f.WellFormed) (hb : f.parent? b = some p)
    (hc : f.parent? c = some p) (hne : b ≠ c) : ¬f.Above b c := by
  intro h
  rcases h.cases_parent with heq | ⟨q, hq, hbq⟩
  · exact hne heq
  · obtain rfl : p = q := Option.some.inj (hc.symm.trans hq)
    exact hf.not_above_parent hb hbq

/-- Nothing is below two different nodes with the same parent. -/
theorem disjoint_below_siblings (hf : f.WellFormed) (hb : f.parent? b = some p)
    (hc : f.parent? c = some p) (hne : b ≠ c) (hba : f.Above b a) : ¬f.Above c a := by
  intro hca
  rcases hba.total hca with h | h
  · exact hf.not_above_sibling hb hc hne h
  · exact hf.not_above_sibling hc hb hne.symm h

/-- No node is twice in the tree of a node. -/
theorem nodup_ids (hf : f.WellFormed) (ht : f.tree? n = some t) : t.ids.Nodup := by
  induction n using hf.wellFounded_child.induction generalizing t with
  | _ n ih =>
    rw [hf.tree?_eq] at ht
    obtain ⟨kind, -, rfl⟩ := Option.map_eq_some_iff.1 ht
    rw [Tree.ids_mk, List.nodup_cons, List.nodup_flatMap]
    refine ⟨?_, ?_, ?_⟩
    · -- the node itself would be below one of its children
      intro hmem
      obtain ⟨u, hu, hnu⟩ := List.mem_flatMap.1 hmem
      obtain ⟨c, hc, hcu⟩ := List.mem_filterMap.1 hu
      exact hf.not_above_parent (hf.mem_children_iff.1 hc) ((hf.mem_ids_iff hcu).1 hnu)
    · intro u hu
      obtain ⟨c, hc, hcu⟩ := List.mem_filterMap.1 hu
      exact ih c (hf.mem_children_iff.1 hc) hcu
    · -- the children are different, so nothing is below two of them
      rw [List.pairwise_filterMap]
      refine (hf.nodup_children n).imp_of_mem fun {b c} hb hc hne u hbu v hcv => ?_
      intro a hau hav
      exact hf.disjoint_below_siblings (hf.mem_children_iff.1 hb) (hf.mem_children_iff.1 hc) hne
        ((hf.mem_ids_iff hbu).1 hau) ((hf.mem_ids_iff hcv).1 hav)

end WellFormed

/-! ## Going up -/

/-- Going from a node to its parent and on, until there is no parent, ends at `top` after following
the given number of links. -/
inductive ClimbsTo (f : Forest) (top : NodeId) : NodeId → Nat → Prop
  /-- There is no parent. -/
  | stop (htop : f.parent? top = none) : ClimbsTo f top top 0
  /-- One link is followed. -/
  | up {n p : NodeId} {links : Nat} (hp : f.parent? n = some p) (hup : ClimbsTo f top p links) :
      ClimbsTo f top n (links + 1)

/-- Going from a node to its parent and on, until the node that is sought is met or there is no
parent, ends after following the given number of links, with the answer whether it has been met. -/
inductive Seeks (f : Forest) (sought : NodeId) : NodeId → Nat → Bool → Prop
  /-- The node has been met. -/
  | met : Seeks f sought sought 0 true
  /-- There is no parent. -/
  | stop {n : NodeId} (hne : n ≠ sought) (htop : f.parent? n = none) : Seeks f sought n 0 false
  /-- One link is followed. -/
  | up {n p : NodeId} {links : Nat} {answer : Bool} (hne : n ≠ sought) (hp : f.parent? n = some p)
      (hup : Seeks f sought p links answer) : Seeks f sought n (links + 1) answer

namespace WellFormed

/-- The way from a node to the top of its tree follows one link less than it meets nodes. -/
theorem climbsTo_top (hf : f.WellFormed) (hn : f.contains n = true) :
    ∃ links < f.depth n, f.ClimbsTo (f.top n) n links := by
  induction n using hf.wellFounded.induction with
  | _ n ih =>
    cases hp : f.parent? n with
    | none =>
      rw [top_of_parent?_eq_none hp]
      exact ⟨0, hf.depth_pos hn, .stop hp⟩
    | some p =>
      obtain ⟨links, hlinks, hup⟩ := ih p hp (hf.contains_parent hp)
      rw [hf.top_of_parent hp]
      refine ⟨links + 1, ?_, .up hp hup⟩
      rw [hf.depth_of_parent hp]
      omega

/-- The search for a node among the ancestors ends at the latest at the top, and finds out whether it
is in the lineage. -/
theorem seeks_lineage (hf : f.WellFormed) (sought : NodeId) (hn : f.contains n = true) :
    ∃ links < f.depth n, f.Seeks sought n links ((f.lineage n).contains sought) := by
  induction n using hf.wellFounded.induction with
  | _ n ih =>
    by_cases hsought : n = sought
    · subst hsought
      refine ⟨0, hf.depth_pos hn, ?_⟩
      rw [hf.lineage_eq hn, List.contains_cons, beq_self_eq_true, Bool.true_or]
      exact .met
    · cases hp : f.parent? n with
      | none =>
        refine ⟨0, hf.depth_pos hn, ?_⟩
        rw [hf.lineage_eq hn, hp]
        simpa [Ne.symm hsought] using Seeks.stop hsought hp
      | some p =>
        obtain ⟨links, hlinks, hup⟩ := ih p hp (hf.contains_parent hp)
        refine ⟨links + 1, ?_, ?_⟩
        · rw [hf.depth_of_parent hp]
          omega
        · rw [hf.lineage_of_parent hp]
          simpa [Ne.symm hsought] using Seeks.up hsought hp hup

end WellFormed

/-- In every reachable forest, going down from a node ends. If all nodes are entered, then it meets
the nodes of the tree of the node: exactly those that have the node among themselves and their
ancestors, each of them once. If some are not entered, then it meets some of them in the same order.
Going up from a node ends as well, at the top or at the node that is sought, and follows fewer links
than there are nodes. -/
theorem traversals_of_reachable (hf : f.Reachable) (hn : f.contains n = true) :
    (∃ t, f.tree? n = some t ∧ (∀ l, f.Visits (fun _ => true) n l ↔ l = t.ids) ∧ t.ids.Nodup ∧
      (∀ m, m ∈ t.ids ↔ f.Above n m) ∧
      ∀ enters, ∃ l, f.Visits enters n l ∧ l.Sublist t.ids) ∧
    (∃ links < f.size, f.ClimbsTo (f.top n) n links) ∧
    ∀ sought, ∃ links < f.size, f.Seeks sought n links ((f.lineage n).contains sought) := by
  have hwf := hf.wellFormed
  have hdepth : f.depth n ≤ f.size := hwf.depth_le_size hn
  obtain ⟨t, ht⟩ := hwf.exists_tree? hn
  refine ⟨⟨t, ht, ?_, hwf.nodup_ids ht, fun m => hwf.mem_ids_iff ht, ?_⟩, ?_, ?_⟩
  · intro l
    rw [hwf.visits_iff ht, Tree.visited_all]
  · intro enters
    exact ⟨t.visited enters, (hwf.visits_iff ht).2 rfl, t.visited_sublist enters⟩
  · obtain ⟨links, hlinks, hclimb⟩ := hwf.climbsTo_top hn
    exact ⟨links, hlinks.trans_le hdepth, hclimb⟩
  · intro sought
    obtain ⟨links, hlinks, hseek⟩ := hwf.seeks_lineage sought hn
    exact ⟨links, hlinks.trans_le hdepth, hseek⟩

theorem traversals_of_reachable_sampleRun :
    (empty.runAll sampleRun).Visits (fun _ => true) ⟨3⟩ [⟨3⟩, ⟨0⟩, ⟨2⟩, ⟨1⟩] ∧
    (empty.runAll sampleRun).Above ⟨3⟩ ⟨1⟩ ∧
    ∃ links < 4, (empty.runAll sampleRun).Seeks ⟨0⟩ ⟨2⟩ links true := by
  have hreach : (empty.runAll sampleRun).Reachable := .runAll .empty sampleRun (by decide +kernel)
  have hids : ((empty.runAll sampleRun).tree? ⟨3⟩).map Tree.ids =
      some [⟨3⟩, ⟨0⟩, ⟨2⟩, ⟨1⟩] := by
    decide +kernel
  obtain ⟨⟨t, ht, hvisits, -, hmem, -⟩, -, -⟩ :=
    traversals_of_reachable hreach (n := ⟨3⟩) (by decide +kernel)
  have hsought : ((empty.runAll sampleRun).lineage ⟨2⟩).contains ⟨0⟩ = true := by decide +kernel
  obtain ⟨-, -, hseeks⟩ := traversals_of_reachable hreach (n := ⟨2⟩) (by decide +kernel)
  rw [ht, Option.map_some, Option.some.injEq] at hids
  rw [hids] at hvisits hmem
  refine ⟨(hvisits _).2 rfl, (hmem _).1 (by simp), ?_⟩
  rw [← hsought]
  exact hseeks ⟨0⟩

end Forest

end MarkupForest
