import MarkupForest.Id

/-!
# Failures

Why an operation on a forest fails.
-/

namespace MarkupForest

/-- Why an operation on a forest is refused. -/
inductive Refusal where
  /-- There is no such node. -/
  | unknownNode (id : NodeId)
  /-- The node already is a child of another one. -/
  | alreadyParented (child parent : NodeId)
  /-- A page is never a child. -/
  | pageAsChild (id : NodeId)
  /-- The node would come to stand below itself. -/
  | cycle (child parent : NodeId)
  /-- The node does not belong to a page: the node at the top of its tree is another kind of node.
  -/
  | rootNotPage (node root : NodeId)
deriving DecidableEq, Repr

/-- The text of a refusal. -/
def Refusal.message : Refusal → String
  | unknownNode id => "Unknown node: " ++ id.text
  | alreadyParented child parent =>
    "Node " ++ child.text ++ " is already a child of " ++ parent.text
  | pageAsChild id => "Page node " ++ id.text ++ " cannot be a child"
  | cycle child parent =>
    "Moving " ++ child.text ++ " under " ++ parent.text ++ " would create a cycle"
  | rootNotPage node root =>
    "Root of " ++ node.text ++ " is " ++ root.text ++ ", which is not a page"

/-- How a call fails. A refusal is part of what the call promises; the other failures mean that the
caller has broken a promise. -/
inductive Failure where
  /-- The call is refused. -/
  | refused (why : Refusal)
  /-- The caller names a node that does not exist. -/
  | noSuchNode (id : NodeId)
  /-- The caller counts on a page that is not there. -/
  | noPage (why : Refusal)
deriving DecidableEq, Repr

/-- The text of a failure. -/
def Failure.message : Failure → String
  | refused e => e.message
  | noSuchNode id => "unknown node " ++ id.text
  | noPage e => e.message

end MarkupForest
