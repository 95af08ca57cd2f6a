import MarkupForest.Tree.Walk

/-!
# Traces

Walkers that write down what a walk does: one that notes where it enters and leaves nodes, and one
that notes which nodes it is asked about.
-/

namespace MarkupForest

/-- A moment of a walk. -/
inductive Moment where
  /-- The walk enters a node. -/
  | enter (node : Node)
  /-- The walk asks about a node. -/
  | ask (node : Node)
  /-- The walk leaves a node. -/
  | leave (node : Node)
deriving DecidableEq, Repr

/-- Writes down a moment and stops the walk there if that is asked for. -/
def note (stopAt : Moment → Bool) (m : Moment) (trace : List Moment) : Flow (List Moment) :=
  if stopAt m then .stop (trace ++ [m]) else .go (trace ++ [m])

/-- Writes down where the walk enters and leaves nodes, and goes below every node that is not text.
-/
def boundaryTracer (stopAt : Moment → Bool) : Walker (List Moment) where
  enter n := note stopAt (.enter n)
  decide := Walker.belowAllButText
  leave n := note stopAt (.leave n)

/-- Writes down which nodes the walk asks about, and does not go below those of the given kinds. -/
def questionTracer (stopAt : Moment → Bool) (skip : List KindTag) : Walker (List Moment) where
  decide n trace :=
    match note stopAt (.ask n) trace with
    | .stop trace => .stop trace
    | .go trace => if skip.contains n.kind.tag then .pass trace else .descend trace

end MarkupForest
