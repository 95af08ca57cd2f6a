import MarkupForest.Event
import MarkupForest.Forest.Basic
import MarkupForest.Forest.Failure

/-!
# Building a forest

Making nodes from the leaves up, and moving them. An operation that would give a node two parents,
put a page below another node or a node below itself is refused and changes nothing.
-/

namespace MarkupForest.Forest

/-- Makes a node without children. -/
def addLeaf (f : Forest) (kind : Kind) (line : UInt32) : NodeId × Forest :=
  (f.nextId, f.push { kind := kind, line := line })

/-- Makes a text node. -/
def addText (f : Forest) (line : UInt32) (text : String) : NodeId × Forest :=
  f.addLeaf (.text text) line

/-- Checks that a node can become a child of the next node, after some others. -/
def checkChild (f : Forest) (before : List NodeId) (child : NodeId) : Except Refusal Unit :=
  match f.get? child with
  | none => .error (.unknownNode child)
  | some e =>
    match e.parent with
    | some parent => .error (.alreadyParented child parent)
    | none =>
      if e.kind.isPage then .error (.pageAsChild child)
      else if before.contains child then .error (.alreadyParented child f.nextId)
      else .ok ()

/-- Checks that nodes can become the children of the next node, after some others. -/
def checkChildren (f : Forest) (before : List NodeId) : List NodeId → Except Refusal Unit
  | [] => .ok ()
  | c :: cs =>
    match f.checkChild before c with
    | .ok () => f.checkChildren (before ++ [c]) cs
    | .error e => .error e

/-- Sets the parent of a node. -/
def setParent (f : Forest) (child parent : NodeId) : Forest :=
  f.modify child fun e => { e with parent := some parent }

/-- Makes a node with the given children. -/
def addParent (f : Forest) (kind : Kind) (line : UInt32) (children : List NodeId) :
    Except Refusal (NodeId × Forest) :=
  match f.checkChildren [] children with
  | .ok () =>
    let linked := children.foldl (fun g c => g.setParent c f.nextId) f
    .ok (f.nextId, linked.push { kind := kind, line := line, children := children })
  | .error e => .error e

/-- Makes a page with the given children. -/
def addPage (f : Forest) (page : Page) (children : List NodeId) :
    Except Refusal (NodeId × Forest) :=
  f.addParent (.page page) 0 children

/-- Whether anything has been found out about the place of a node or of one below it. -/
def isNavigated (f : Forest) (n : NodeId) : Bool :=
  ((f.tree? n).map fun t => t.preorder.any fun m => (f.memo m.id).isSet).getD false

/-- Takes a node out of the children of its parent. -/
def detach (f : Forest) (child : NodeId) : Forest :=
  match f.parent? child with
  | some p => f.modify p fun e => { e with children := e.children.filter (· != child) }
  | none => f

/-- Puts a node at the end of the children of another one. -/
def attach (f : Forest) (child parent : NodeId) : Forest :=
  (f.modify parent fun e => { e with children := e.children ++ [child] }).setParent child parent

/-- Checks that a node can be moved under another one. -/
def checkMove (f : Forest) (child parent : NodeId) : Except Refusal Unit :=
  if !f.contains child then .error (.unknownNode child)
  else if f.isPage child then .error (.pageAsChild child)
  else if !f.contains parent then .error (.unknownNode parent)
  else if (f.lineage parent).contains child then .error (.cycle child parent)
  else .ok ()

/-- Moves a node, with all that is below it, to the end of the children of another one. What has
been found out about places is kept, so a move after that is reported. -/
def move (f : Forest) (child parent : NodeId) : Except Refusal (List Event × Forest) :=
  match f.checkMove child parent with
  | .ok () =>
    let events := if f.isNavigated child then [.staleMove child parent] else []
    .ok (events, (f.detach child).attach child parent)
  | .error e => .error e

end MarkupForest.Forest
