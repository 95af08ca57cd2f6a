import MarkupForest.Proofs.Lists
import MarkupForest.Tree.Walk

/-!
# Trees of the same shape

Two trees correspond if they have the same shape and the nodes in the same place are related. What is
put together from the bottom up, and what a walk does, is then the same for both as far as it depends
only on what the relation keeps.

## Main definitions

* `Tree.Corresponds`: the same shape with related nodes;
* `Walker.Respects`: a walker does the same at related nodes, up to a relation on its states.

## Main results

* `Tree.Corresponds.fold_eq` and `Tree.fold_eq_iff`: combining corresponding trees;
* `Tree.Corresponds.walk`: walking through corresponding trees.
-/

namespace MarkupForest

namespace Tree

variable {N : Node → Node → Prop} {t u : Tree} {α : Type}

/-- The trees have the same shape, and nodes in the same place are related. -/
inductive Corresponds (N : Node → Node → Prop) : Tree → Tree → Prop
  | mk {n m : Node} {ts us : List Tree} (root : N n m)
      (children : List.Forall₂ (Corresponds N) ts us) : Corresponds N (mk n ts) (mk m us)

/-- What is passed on from the trees below to the trees above holds of all corresponding trees. -/
@[elab_as_elim]
theorem Corresponds.induction {P : Tree → Tree → Prop}
    (mk : ∀ {n m ts us}, N n m → List.Forall₂ P ts us → P (.mk n ts) (.mk m us))
    (h : Corresponds N t u) : P t u := by
  induction t generalizing u with
  | mk n ts ih =>
    cases h with
    | mk hroot hchildren =>
      have hboth := (List.forall₂_and_left _ _).2 ⟨ih, hchildren⟩
      exact mk hroot (hboth.imp fun t u h => h.1 h.2)

theorem Corresponds.root_rel (h : Corresponds N t u) : N t.root u.root := by
  cases h with
  | mk root _ => exact root

/-- A weaker relation leaves corresponding trees corresponding. -/
theorem Corresponds.mono {N' : Node → Node → Prop} (hN : ∀ n m, N n m → N' n m)
    (h : Corresponds N t u) : Corresponds N' t u :=
  Corresponds.induction (fun hroot hchildren => .mk (hN _ _ hroot) hchildren) h

theorem Corresponds.fold_eq {f : Node → List α → α} (hf : ∀ n m, N n m → f n = f m)
    (h : Corresponds N t u) : t.fold f = u.fold f := by
  refine Corresponds.induction (fun hroot hchildren => ?_) h
  rw [fold_mk, fold_mk, hf _ _ hroot, map_eq_map_iff_forall₂.2 hchildren]

/-- If the result of a node determines the node, up to the relation, and the results of its children,
then the result of a tree determines the tree. -/
theorem fold_eq_iff {f : Node → List α → α}
    (hf : ∀ n m ps qs, f n ps = f m qs ↔ N n m ∧ ps = qs) :
    t.fold f = u.fold f ↔ Corresponds N t u := by
  refine ⟨fun h => ?_, Corresponds.fold_eq fun n m hnm => ?_⟩
  swap
  · exact funext fun ps => (hf n m ps ps).2 ⟨hnm, rfl⟩
  induction t generalizing u with
  | mk n ts ih =>
    obtain ⟨m, us⟩ := u
    rw [fold_mk, fold_mk, hf, map_eq_map_iff_forall₂] at h
    obtain ⟨hroot, hchildren⟩ := h
    have hboth := (List.forall₂_and_left _ _).2 ⟨ih, hchildren⟩
    exact .mk hroot (hboth.imp fun t u h => h.1 h.2)

end Tree

/-! ## Walks -/

section Walks

variable {σ : Type} {N : Node → Node → Prop} {R : σ → σ → Prop}

/-- Both walks go on or both have been stopped, in related states. -/
inductive Flow.Rel (R : σ → σ → Prop) : Flow σ → Flow σ → Prop
  | go {s s' : σ} (h : R s s') : Rel R (.go s) (.go s')
  | stop {s s' : σ} (h : R s s') : Rel R (.stop s) (.stop s')

/-- Both decisions are the same, in related states. -/
inductive Choice.Rel (R : σ → σ → Prop) : Choice σ → Choice σ → Prop
  | descend {s s' : σ} (h : R s s') : Rel R (.descend s) (.descend s')
  | pass {s s' : σ} (h : R s s') : Rel R (.pass s) (.pass s')
  | stop {s s' : σ} (h : R s s') : Rel R (.stop s) (.stop s')

theorem Choice.Rel.refl (hR : ∀ s, R s s) (c : Choice σ) : Choice.Rel R c c := by
  cases c with
  | descend s => exact .descend (hR s)
  | pass s => exact .pass (hR s)
  | stop s => exact .stop (hR s)

theorem Walker.belowAllButText_rel {n m : Node} (htag : n.kind.tag = m.kind.tag) {s s' : σ}
    (hs : R s s') : Choice.Rel R (belowAllButText n s) (belowAllButText m s') := by
  unfold belowAllButText
  rw [htag]
  split
  · exact .pass hs
  · exact .descend hs

theorem Flow.Rel.state {a b : Flow σ} (h : Flow.Rel R a b) : R a.state b.state := by
  cases h with
  | go h => exact h
  | stop h => exact h

theorem Flow.Rel.stopped_eq {a b : Flow σ} (h : Flow.Rel R a b) : a.stopped = b.stopped := by
  cases h with
  | go => rfl
  | stop => rfl

theorem Flow.Rel.andThen {a b : Flow σ} {k l : σ → Flow σ} (h : Flow.Rel R a b)
    (hnext : ∀ s s', R s s' → Flow.Rel R (k s) (l s')) :
    Flow.Rel R (a.andThen k) (b.andThen l) := by
  cases h with
  | go h => exact hnext _ _ h
  | stop h => exact .stop h

/-- A walker does the same at related nodes, from related states to related states. -/
structure Walker.Respects (w : Walker σ) (N : Node → Node → Prop) (R : σ → σ → Prop) : Prop where
  enter : ∀ {n m s s'}, N n m → R s s' → Flow.Rel R (w.enter n s) (w.enter m s')
  decide : ∀ {n m s s'}, N n m → R s s' → Choice.Rel R (w.decide n s) (w.decide m s')
  leave : ∀ {n m s s'}, N n m → R s s' → Flow.Rel R (w.leave n s) (w.leave m s')

variable {w : Walker σ}

private theorem walkAll_rel {ts us : List Tree}
    (h : List.Forall₂ (fun t u => ∀ s s', R s s' → Flow.Rel R (t.walk w s) (u.walk w s')) ts us)
    {s s' : σ} (hs : R s s') : Flow.Rel R (Tree.walkAll w ts s) (Tree.walkAll w us s') := by
  induction h generalizing s s' with
  | nil => exact .go hs
  | cons hfirst _ ih => exact (hfirst s s' hs).andThen fun _ _ h => ih h

/-- Walks through corresponding trees go the same way. -/
theorem Tree.Corresponds.walk (hw : w.Respects N R) {t u : Tree} (h : Tree.Corresponds N t u) :
    ∀ s s', R s s' → Flow.Rel R (t.walk w s) (u.walk w s') := by
  refine Tree.Corresponds.induction (fun {n m _ _} hroot hchildren s s' hs => ?_) h
  rw [Tree.walk, Tree.walk]
  refine (hw.enter hroot hs).andThen fun s s' hs => ?_
  -- both walks take the same decision, so they go the same way from here
  have hchoice := hw.decide hroot hs
  generalize w.decide n s = c at hchoice ⊢
  generalize w.decide m s' = c' at hchoice ⊢
  cases hchoice with
  | descend hs => exact (walkAll_rel hchildren hs).andThen fun _ _ h => hw.leave hroot h
  | pass hs => exact hw.leave hroot hs
  | stop hs => exact .stop hs

end Walks

end MarkupForest
