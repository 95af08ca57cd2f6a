import MarkupForest.Tree.Walk

/-!
# Contributed text

The text that a tree contributes to the name of a thing: that of its text nodes in order, without
those inside templates and tables.
-/

namespace MarkupForest

/-- Collects the text of text nodes and stays out of templates and tables. -/
def textGatherer : Walker String where
  decide n s :=
    match n.kind with
    | .text t => .pass (s ++ t)
    | .template _ => .pass s
    | .table _ => .pass s
    | _ => .descend s

/-- The text that a tree contributes. -/
def Tree.contribution (t : Tree) : String :=
  (t.walk textGatherer "").state

end MarkupForest
