import MarkupForest.Tree.Walk

/-!
# Templates

The template calls of a tree, by the titles of the templates. A template inside another one counts
as well; what hangs below a text node does not.
-/

namespace MarkupForest

/-- Whether a template title is asked for. An empty list asks for all. -/
def isWanted (names : List String) (title : Title) : Bool :=
  names.isEmpty || names.contains title.name

/-- The title of a node if it is a template that is asked for. -/
def Node.wanted? (names : List String) (n : Node) : Option Title :=
  n.kind.template?.filter (isWanted names)

/-- Collects the templates that are asked for. -/
def templateGatherer (names : List String) : Walker (List Node) where
  decide n s :=
    Walker.belowAllButText n (if (n.wanted? names).isSome then s ++ [n] else s)

/-- Stops at the first template that is asked for. -/
def templateSeeker (names : List String) : Walker Unit where
  decide n s :=
    if (n.wanted? names).isSome then .stop s else Walker.belowAllButText n s

namespace Tree

/-- The templates of a tree that are asked for, each before those inside it. -/
def templates (names : List String) (t : Tree) : List Node :=
  (t.walk (templateGatherer names) []).state

/-- The titles of the templates of a tree that are asked for. -/
def templateTitles (names : List String) (t : Tree) : List String :=
  (t.templates names).filterMap fun n => n.kind.template?.map (·.name)

/-- Whether a tree has a template that is asked for. -/
def callsTemplate (names : List String) (t : Tree) : Bool :=
  (t.walk (templateSeeker names) ()).stopped

end Tree

end MarkupForest
