import MarkupForest.Annotation
import MarkupForest.Record
import MarkupForest.Tree

/-!
# Forests

The nodes of wiki pages, numbered in the order in which they were made. Each node knows its parent
and, in order, its children. It also holds what has been found out about its place, the values
attached to it and the records left on it.

The functions `kind?`, `line`, `parent?`, `children`, `memo`, `annotations` and `records` say all
there is to know about a node; they are total, and an id without a node is like a node with nothing
to it.
-/

namespace MarkupForest

/-- What has been found out about the place of a node and is kept from then on. -/
structure Memo where
  /-- The page at the top of its tree. -/
  root : Option NodeId := none
  /-- The heading of the section it stands in, or that there is none. -/
  heading : Option (Option NodeId) := none
  /-- The hash of its content. -/
  fingerprint : Option UInt64 := none
deriving DecidableEq, Repr

/-- Whether anything has been found out. -/
def Memo.isSet (m : Memo) : Bool :=
  m.root.isSome || m.heading.isSome || m.fingerprint.isSome

/-- All that a forest holds about a node. -/
structure Entry where
  /-- What the node is. -/
  kind : Kind
  /-- The line it stands on. -/
  line : UInt32
  /-- Its children in order. -/
  children : List NodeId := []
  /-- Its parent. -/
  parent : Option NodeId := none
  /-- What has been found out about its place. -/
  memo : Memo := {}
  /-- The values attached to it. -/
  annotations : Annotation.Store := {}
  /-- The records left on it, oldest first. -/
  records : List Record := []

/-- The nodes of some trees. -/
structure Forest where
  /-- The nodes in the order in which they were made. -/
  entries : Array Entry := #[]

namespace Forest

/-- The forest without nodes. -/
def empty : Forest := {}

/-- The number of nodes. -/
def size (f : Forest) : Nat := f.entries.size

/-- All that the forest holds about a node. -/
def get? (f : Forest) (n : NodeId) : Option Entry :=
  f.entries[n.index]?

/-- Whether there is a node with this id. -/
def contains (f : Forest) (n : NodeId) : Bool :=
  n.index < f.size

/-- The ids of all nodes in the order in which they were made. -/
def ids (f : Forest) : List NodeId :=
  (List.range f.size).map NodeId.ofIndex

/-- What a node is. -/
def kind? (f : Forest) (n : NodeId) : Option Kind :=
  (f.get? n).map (·.kind)

/-- The line a node stands on. -/
def line (f : Forest) (n : NodeId) : UInt32 :=
  ((f.get? n).map (·.line)).getD 0

/-- The parent of a node. -/
def parent? (f : Forest) (n : NodeId) : Option NodeId :=
  (f.get? n).bind (·.parent)

/-- The children of a node in order. -/
def children (f : Forest) (n : NodeId) : List NodeId :=
  ((f.get? n).map (·.children)).getD []

/-- What has been found out about the place of a node. -/
def memo (f : Forest) (n : NodeId) : Memo :=
  ((f.get? n).map (·.memo)).getD {}

/-- The values attached to a node. -/
def annotations (f : Forest) (n : NodeId) : Annotation.Store :=
  ((f.get? n).map (·.annotations)).getD {}

/-- The records left on a node, oldest first. -/
def records (f : Forest) (n : NodeId) : List Record :=
  ((f.get? n).map (·.records)).getD []

/-- The page that a node is. -/
def page? (f : Forest) (n : NodeId) : Option Page :=
  (f.kind? n).bind Kind.page?

/-- Whether a node is a page. -/
def isPage (f : Forest) (n : NodeId) : Bool :=
  (f.page? n).isSome

/-- Whether a node is the heading of a section. -/
def isHeading (f : Forest) (n : NodeId) : Bool :=
  ((f.kind? n).map Kind.isHeading).getD false

/-- Changes what the forest holds about a node. -/
def modify (f : Forest) (n : NodeId) (g : Entry → Entry) : Forest :=
  ⟨f.entries.modify n.index g⟩

/-- The id of the next node that is made. -/
def nextId (f : Forest) : NodeId :=
  NodeId.ofIndex f.size

/-- Adds a node. -/
def push (f : Forest) (e : Entry) : Forest :=
  ⟨f.entries.push e⟩

@[simp] theorem size_empty : empty.size = 0 := rfl

@[simp] theorem size_modify (f : Forest) (n : NodeId) (g : Entry → Entry) :
    (f.modify n g).size = f.size := by
  simp [modify, size]

@[simp] theorem size_push (f : Forest) (e : Entry) : (f.push e).size = f.size + 1 := by
  simp [push, size]

/-- A change to a node changes what is held about that node and about no other. -/
theorem get?_modify (f : Forest) (n m : NodeId) (g : Entry → Entry) :
    (f.modify n g).get? m = if n = m then (f.get? m).map g else f.get? m := by
  simp [modify, get?, Array.getElem?_modify, NodeId.index_inj]

/-- The nodes of a forest are those whose numbers are below its size. -/
theorem contains_iff (f : Forest) (n : NodeId) : f.contains n = true ↔ n.index < f.size :=
  decide_eq_true_iff

/-- Something is held about exactly the nodes of a forest. -/
theorem get?_isSome_iff (f : Forest) (n : NodeId) : (f.get? n).isSome ↔ f.contains n = true := by
  rw [contains_iff]
  simp [get?, size]

/-- Adding a node changes nothing about the others. -/
theorem get?_push_of_contains (f : Forest) (e : Entry) {n : NodeId} (h : f.contains n = true) :
    (f.push e).get? n = f.get? n := by
  have hlt : n.index < f.entries.size := (f.contains_iff n).1 h
  simp [push, get?, Array.getElem?_push, Nat.ne_of_lt hlt]

/-- The node that has been added is the next one. -/
theorem get?_push_nextId (f : Forest) (e : Entry) (h : f.size < UInt32.size) :
    (f.push e).get? f.nextId = some e := by
  have hindex : f.nextId.index = f.entries.size := NodeId.index_ofIndex h
  simp [push, get?, hindex]

/-- A node and its ancestors from the parent upwards, at most `n` of them together. -/
def climb (f : Forest) : Nat → NodeId → List NodeId
  | 0, _ => []
  | n + 1, id =>
    id :: match f.parent? id with
      | some p => climb f n p
      | none => []

/-- A node and its ancestors, from the node itself up to the top of its tree. No path in a forest is
longer than the number of its nodes. -/
def lineage (f : Forest) (id : NodeId) : List NodeId :=
  f.climb f.size id

/-- The node at the top of a node's tree. -/
def top (f : Forest) (id : NodeId) : NodeId :=
  (f.lineage id).getLast?.getD id

/-- The tree of a node down to the given number of levels. -/
def expand (f : Forest) : Nat → NodeId → Option Tree
  | 0, _ => none
  | n + 1, id => do
    let e ← f.get? id
    return .mk ⟨id, e.kind, e.line⟩ (e.children.filterMap (expand f n))

/-- The tree of a node, if there is such a node. No path in a forest is longer than the number of
its nodes. -/
def tree? (f : Forest) (id : NodeId) : Option Tree :=
  f.expand f.size id

/-- A forest as it is shown. -/
def describe (f : Forest) : String :=
  "NodeArena \x7b nodes: " ++ String.ofList (Nat.toDigits 10 f.size) ++ " \x7d"

/-- The text of a text node, or of a node whose only child is a text node. -/
def onlyText? (f : Forest) (n : NodeId) : Option String :=
  match (f.kind? n).bind Kind.text?, f.children n with
  | some s, _ => some s
  | none, [c] => (f.kind? c).bind Kind.text?
  | none, _ => none

/-- The argument of a call that has the given key; the first one if there are several. -/
def argument? (f : Forest) (n : NodeId) (key : String) : Option NodeId :=
  if ((f.kind? n).map Kind.takesArguments).getD false then
    (f.children n).find? fun c => (f.kind? c).bind Kind.key? == some key
  else none

end Forest

end MarkupForest
