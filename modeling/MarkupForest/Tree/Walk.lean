import MarkupForest.Tree

/-!
# Walks

A walk goes through a tree from the top down and from left to right. A walker sees each node when
the walk enters it, decides whether to go below it, and sees it again when the walk leaves it. It
may stop the walk at any of these moments, and the walk then ends at once.
-/

namespace MarkupForest

variable {σ : Type}

/-- The state of a walk, and whether it goes on. -/
inductive Flow (σ : Type) where
  /-- The walk goes on. -/
  | go (state : σ)
  /-- The walk has been stopped. -/
  | stop (state : σ)

namespace Flow

/-- Goes on with the next step unless the walk has been stopped. -/
def andThen (f : Flow σ) (next : σ → Flow σ) : Flow σ :=
  match f with
  | go s => next s
  | stop s => stop s

/-- The state of the walk. -/
def state : Flow σ → σ
  | go s => s
  | stop s => s

/-- Whether the walk has been stopped. -/
def stopped : Flow σ → Bool
  | go _ => false
  | stop _ => true

end Flow

/-- What a walker decides at a node. -/
inductive Choice (σ : Type) where
  /-- To go on below the node. -/
  | descend (state : σ)
  /-- To go on after the node. -/
  | pass (state : σ)
  /-- To stop the walk. -/
  | stop (state : σ)

/-- What is done at the nodes of a walk. -/
structure Walker (σ : Type) where
  /-- What is done when the walk enters a node. -/
  enter : Node → σ → Flow σ := fun _ s => .go s
  /-- The decision whether to go below a node. -/
  decide : Node → σ → Choice σ
  /-- What is done when the walk leaves a node. -/
  leave : Node → σ → Flow σ := fun _ s => .go s

/-- The usual decision: to go below every node that is not text. -/
def Walker.belowAllButText (n : Node) (s : σ) : Choice σ :=
  if n.kind.tag = .text then .pass s else .descend s

namespace Tree

mutual

/-- Walks through a tree. -/
def walk (w : Walker σ) : Tree → σ → Flow σ
  | mk n ts, s =>
    (w.enter n s).andThen fun s =>
      match w.decide n s with
      | .descend s => (walkAll w ts s).andThen (w.leave n)
      | .pass s => w.leave n s
      | .stop s => .stop s

/-- Walks through some trees, one after the other. -/
def walkAll (w : Walker σ) : List Tree → σ → Flow σ
  | [], s => .go s
  | t :: ts, s => (walk w t s).andThen (walkAll w ts)

end

/-- Walks through everything below the node at the top. -/
def walkBelow (w : Walker σ) (t : Tree) (s : σ) : Flow σ :=
  walkAll w t.children s

end Tree

end MarkupForest
