import MarkupForest.Proofs.Forest.Traversal
import MarkupForest.Tree.Walk

/-!
# What a walk comes to

Many walkers do nothing when they enter or leave a node. They act when they decide where to go, and
whether they go below a node depends on the node alone. The nodes that such a walk comes to are known
before it begins, and the walk does nothing but act on them, one after the other, until it is stopped.

A walk can be watched: the watched walker does the same, and writes down the nodes at which it
decides. So it can be said of a walk that gives no more than a yes or a no how far it has gone.

## Main definitions

* `Tree.reached`: the nodes of a tree in order, without those below nodes that are not entered;
* `Walker.Acts`: a walker acts when it decides, and goes below the given nodes;
* `Flow.through`: acting on some nodes, one after the other, until the walk is stopped;
* `Walker.watched`: the same walker, which also writes down the nodes at which it decides.

## Main results

* `Walker.Acts.walk_eq`: a walk acts on the nodes that it comes to;
* `Flow.through_stopAt_watched`: a walk that stops at the first node with a property comes to no
  node behind it;
* `Forest.WellFormed.map_id_reached`: the nodes that a walk through the tree of a node comes to are
  those met by going down the forest.
-/

namespace MarkupForest

variable {σ : Type}

namespace Tree

/-- The nodes of a tree in order, without those below nodes that are not entered. -/
def reached (enters : Node → Bool) (t : Tree) : List Node :=
  t.fold fun n parts => n :: if enters n then parts.flatten else []

theorem reached_mk (enters : Node → Bool) (n : Node) (ts : List Tree) :
    (mk n ts).reached enters = n :: if enters n then ts.flatMap (reached enters) else [] :=
  fold_mk _ n ts

/-- Every node that is reached is a node of the tree. -/
theorem mem_preorder_of_mem_reached {enters : Node → Bool} {t : Tree} {m : Node}
    (h : m ∈ t.reached enters) : m ∈ t.preorder := by
  induction t with
  | mk n ts ih =>
    rw [reached_mk, List.mem_cons] at h
    rw [preorder_mk, List.mem_cons, List.mem_flatMap]
    refine h.imp_right fun hm => ?_
    split at hm
    · obtain ⟨t, ht, hmt⟩ := List.mem_flatMap.1 hm
      exact ⟨t, ht, ih t ht hmt⟩
    · exact absurd hm List.not_mem_nil

/-- The ids of the nodes that are reached, if it is the id that tells whether a node is entered. -/
theorem map_id_reached {enters : Node → Bool} {entersId : NodeId → Bool} {t : Tree}
    (h : ∀ m ∈ t.preorder, enters m = entersId m.id) :
    (t.reached enters).map (·.id) = t.visited entersId := by
  induction t with
  | mk n ts ih =>
    rw [preorder_mk, List.forall_mem_cons] at h
    obtain ⟨hn, hts⟩ := h
    have hbranches : ts.map (fun t => (t.reached enters).map (·.id)) =
        ts.map (visited entersId) :=
      List.map_congr_left fun t ht => ih t ht fun m hm => hts m (List.mem_flatMap_of_mem ht hm)
    rw [reached_mk, visited_mk, List.map_cons, hn, ← hbranches]
    split
    · rw [List.map_flatMap, List.flatMap]
    · rfl

end Tree

/-! ## Acting on one node after the other -/

namespace Flow

/-- The decision to go on as the walk does, below the node or past it. -/
def toChoice (below : Bool) : Flow σ → Choice σ
  | go s => if below then .descend s else .pass s
  | stop s => .stop s

/-- The same walk, in a state that something is made of. -/
def map {τ : Type} (k : σ → τ) : Flow σ → Flow τ
  | go s => .go (k s)
  | stop s => .stop (k s)

/-- Acts on some nodes, one after the other, until the walk is stopped. -/
def through (act : Node → σ → Flow σ) : List Node → σ → Flow σ
  | [], s => .go s
  | n :: ns, s => (act n s).andThen (through act ns)

theorem through_append (act : Node → σ → Flow σ) (ns ms : List Node) (s : σ) :
    through act (ns ++ ms) s = (through act ns s).andThen (through act ms) := by
  induction ns generalizing s with
  | nil => rfl
  | cons n ns ih =>
    rw [List.cons_append, through, through]
    cases act n s with
    | go s' => exact ih s'
    | stop s' => rfl

end Flow

/-- The walker does nothing when it enters or leaves a node. It acts when it decides where to go, and
goes below the given nodes unless that stops the walk. -/
structure Walker.Acts (w : Walker σ) (enters : Node → Bool) (act : Node → σ → Flow σ) : Prop where
  /-- Nothing is done when the walk enters a node. -/
  enter : ∀ n s, w.enter n s = .go s
  /-- The decision is to act and then to go below the node or past it. -/
  decide : ∀ n s, w.decide n s = (act n s).toChoice (enters n)
  /-- Nothing is done when the walk leaves a node. -/
  leave : ∀ n s, w.leave n s = .go s

namespace Walker.Acts

variable {w : Walker σ} {enters : Node → Bool} {act : Node → σ → Flow σ}

private theorem walkAll_eq {ts : List Tree}
    (h : ∀ t ∈ ts, ∀ s, t.walk w s = Flow.through act (t.reached enters) s) (s : σ) :
    Tree.walkAll w ts s = Flow.through act (ts.flatMap (Tree.reached enters)) s := by
  induction ts generalizing s with
  | nil => rfl
  | cons t ts ih =>
    obtain ⟨ht, hts⟩ := List.forall_mem_cons.1 h
    rw [Tree.walkAll, List.flatMap_cons, Flow.through_append, ht]
    exact congrArg _ (funext (ih hts))

/-- A walk acts on the nodes that it comes to, one after the other. -/
theorem walk_eq (hw : w.Acts enters act) (t : Tree) (s : σ) :
    t.walk w s = Flow.through act (t.reached enters) s := by
  induction t generalizing s with
  | mk n ts ih =>
    have hleave : ∀ out : Flow σ, out.andThen (w.leave n) = out := fun out => by
      cases out with
      | go s => exact hw.leave n s
      | stop s => rfl
    simp only [Tree.walk, hw.enter, hw.decide, Tree.reached_mk, Flow.through, Flow.andThen]
    cases act n s with
    | stop s => rfl
    | go s =>
      cases hn : enters n with
      | false => exact hw.leave n s
      | true => exact (hleave _).trans (walkAll_eq ih s)

end Walker.Acts

/-! ## Watching a walk -/

/-- The same decision, in a state that something is made of. -/
def Choice.map {τ : Type} (k : σ → τ) : Choice σ → Choice τ
  | descend s => .descend (k s)
  | pass s => .pass (k s)
  | stop s => .stop (k s)

/-- The same walker, which also writes down the nodes at which it decides. -/
def Walker.watched (w : Walker σ) : Walker (σ × List Node) where
  enter n s := (w.enter n s.1).map (·, s.2)
  decide n s := (w.decide n s.1).map (·, s.2 ++ [n])
  leave n s := (w.leave n s.1).map (·, s.2)

/-- A watched walker acts as before and writes down where it does. -/
theorem Walker.Acts.watched {w : Walker σ} {enters : Node → Bool} {act : Node → σ → Flow σ}
    (hw : w.Acts enters act) :
    w.watched.Acts enters fun n s => (act n s.1).map (·, s.2 ++ [n]) where
  enter n s := congrArg (Flow.map (·, s.2)) (hw.enter n s.1)
  decide n s := by
    refine (congrArg (Choice.map (·, s.2 ++ [n])) (hw.decide n s.1)).trans ?_
    cases act n s.1 with
    | stop s' => rfl
    | go s' => cases enters n <;> rfl
  leave n s := congrArg (Flow.map (·, s.2)) (hw.leave n s.1)

namespace Flow

/-- Stops at the nodes with the given property and does nothing at the others. -/
def stopAt (p : Node → Bool) (n : Node) (s : σ) : Flow σ :=
  if p n then .stop s else .go s

/-- A walk that stops at the nodes with a property is stopped exactly if it comes to one. -/
theorem stopped_through_stopAt (p : Node → Bool) (ns : List Node) (s : σ) :
    (through (stopAt p) ns s).stopped = ns.any p := by
  induction ns with
  | nil => rfl
  | cons n ns ih =>
    rw [through, stopAt, List.any_cons]
    cases p n with
    | true => rfl
    | false => exact ih

/-- Such a walk goes on as before if it is watched. It comes to the first node with the property and
to no node behind it. -/
theorem through_stopAt_watched (p : Node → Bool) (ns seen : List Node) (s : σ) :
    through (fun n (s : σ × List Node) => (stopAt p n s.1).map (·, s.2 ++ [n])) ns (s, seen) =
      (through (stopAt p) ns s).map (·, seen ++ ns.take (ns.findIdx p + 1)) := by
  induction ns generalizing seen with
  | nil => simp [through, map]
  | cons n ns ih =>
    rw [through, through, stopAt, List.findIdx_cons]
    cases p n with
    | true => rfl
    | false =>
      have hrest := ih (seen ++ [n])
      rw [List.append_assoc, List.singleton_append] at hrest
      exact hrest

end Flow

/-! ## Walks through forests -/

namespace Forest.WellFormed

variable {f : Forest} {n : NodeId} {t : Tree}

/-- The nodes of the tree of a node are as the forest has them. -/
theorem kind?_and_line_of_mem_preorder (hf : f.WellFormed) (ht : f.tree? n = some t) {m : Node}
    (hm : m ∈ t.preorder) : f.kind? m.id = some m.kind ∧ f.line m.id = m.line := by
  induction n using hf.wellFounded_child.induction generalizing t with
  | _ n ih =>
    rw [hf.tree?_eq] at ht
    obtain ⟨kind, hkind, rfl⟩ := Option.map_eq_some_iff.1 ht
    rw [Tree.preorder_mk, List.mem_cons] at hm
    rcases hm with rfl | hm
    · exact ⟨hkind, rfl⟩
    · obtain ⟨u, hu, hmu⟩ := List.mem_flatMap.1 hm
      obtain ⟨c, hc, hcu⟩ := List.mem_filterMap.1 hu
      exact ih c (hf.mem_children_iff.1 hc) hcu hmu

/-- If it is the kind of a node that tells whether it is entered, then the nodes that a walk comes to
are those met by going down the forest, and no two of them are the same. -/
theorem map_id_reached (hf : f.WellFormed) (ht : f.tree? n = some t) (enters : Kind → Bool) :
    f.Visits (fun m => (f.kind? m).any enters) n ((t.reached (enters ·.kind)).map (·.id)) ∧
      ((t.reached (enters ·.kind)).map (·.id)).Sublist t.ids ∧
      ((t.reached (enters ·.kind)).map (·.id)).Nodup := by
  have hids : (t.reached (enters ·.kind)).map (·.id) =
      t.visited fun m => (f.kind? m).any enters := by
    apply Tree.map_id_reached
    intro m hm
    rw [(hf.kind?_and_line_of_mem_preorder ht hm).1, Option.any_some]
  rw [hids, hf.visits_iff ht]
  exact ⟨rfl, t.visited_sublist _, (hf.nodup_ids ht).sublist (t.visited_sublist _)⟩

end Forest.WellFormed

end MarkupForest
