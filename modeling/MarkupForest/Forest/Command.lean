import MarkupForest.Forest.Attach
import MarkupForest.Forest.Build
import MarkupForest.Forest.Navigation

/-!
# Commands

The calls that can change a forest as data, what they answer, and what a run of them does. A call
that fails leaves the forest as it was.
-/

namespace MarkupForest

/-- A call that can change a forest. -/
inductive Command where
  /-- Makes a node without children. -/
  | addLeaf (kind : Kind) (line : UInt32)
  /-- Makes a node with the given children. -/
  | addParent (kind : Kind) (line : UInt32) (children : List NodeId)
  /-- Makes a page with the given children. -/
  | addPage (page : Page) (children : List NodeId)
  /-- Moves a node under another one. -/
  | move (child parent : NodeId)
  /-- Asks for the page of a node, which may not be there. -/
  | tryRoot (node : NodeId)
  /-- Asks for the page of a node. -/
  | root (node : NodeId)
  /-- Asks for the section of a node. -/
  | enclosingSection (node : NodeId)
  /-- Asks for the content hash of a node. -/
  | fingerprint (node : NodeId)
  /-- Asks for the number of a node. -/
  | ident (node : NodeId)
  /-- Asks for the address of the page of a node. -/
  | pageAddress (node : NodeId)
  /-- Asks for the address of a node. -/
  | address (node : NodeId)
  /-- Attaches a value to a node. -/
  | annotate (node : NodeId) (slot : Annotation.Slot)
  /-- Leaves a record on a node. -/
  | addRecord (node : NodeId) (record : Record)

/-- What a call answers. -/
inductive Answer where
  /-- That it is done. -/
  | done
  /-- A node. -/
  | node (id : NodeId)
  /-- A node, or that there is none. -/
  | node? (id : Option NodeId)
  /-- A hash. -/
  | hash (h : UInt64)
  /-- The number of a node. -/
  | ident (n : Int64)
  /-- Text. -/
  | text (s : String)
  /-- How many there are. -/
  | count (n : Nat)
deriving DecidableEq, Repr

/-- The answer of a call that succeeds, what it has reported, and the forest after it. -/
structure Outcome where
  /-- The answer. -/
  answer : Answer
  /-- What has been reported. -/
  events : List Event
  /-- The forest after the call. -/
  forest : Forest

namespace Forest

/-- Goes on with a node that has to be there. -/
def onNode (f : Forest) (n : NodeId) (k : Except Failure Outcome) : Except Failure Outcome :=
  if f.contains n then k else .error (.noSuchNode n)

/-- The outcome of making a node. -/
def made (r : NodeId × Forest) : Outcome :=
  ⟨.node r.1, [], r.2⟩

/-- The outcome of a question about a node that counts on its page. -/
def asked {α : Type} (answer : α → Answer) : Except Refusal (α × Forest) → Except Failure Outcome
  | .ok (a, f) => .ok ⟨answer a, [], f⟩
  | .error e => .error (.noPage e)

/-- Carries out a call. -/
def run (f : Forest) : Command → Except Failure Outcome
  | .addLeaf kind line => .ok (made (f.addLeaf kind line))
  | .addParent kind line children =>
    match f.addParent kind line children with
    | .ok r => .ok (made r)
    | .error e => .error (.refused e)
  | .addPage page children =>
    match f.addPage page children with
    | .ok r => .ok (made r)
    | .error e => .error (.refused e)
  | .move child parent =>
    match f.move child parent with
    | .ok (events, f) => .ok ⟨.done, events, f⟩
    | .error e => .error (.refused e)
  | .tryRoot n => f.onNode n <|
    match f.root n with
    | .ok (r, f) => .ok ⟨.node r, [], f⟩
    | .error e => .error (.refused e)
  | .root n => f.onNode n (asked .node (f.root n))
  | .enclosingSection n => f.onNode n (asked .node? (f.enclosingSection n))
  | .fingerprint n => f.onNode n (asked .hash (f.fingerprint n))
  | .ident n => f.onNode n (asked .ident (f.ident n))
  | .pageAddress n => f.onNode n (asked .text (f.pageAddress n))
  | .address n => f.onNode n (asked .text (f.address n))
  | .annotate n slot => f.onNode n (.ok ⟨.done, [], f.annotate n ⟨slot.name⟩ slot.value⟩)
  | .addRecord n r => f.onNode n <|
    let (events, f) := f.addRecord n r
    .ok ⟨.count (f.records n).length, events, f⟩

/-- The forest after a call, whether it succeeds or fails. -/
def step (f : Forest) (c : Command) : Forest :=
  match f.run c with
  | .ok o => o.forest
  | .error _ => f

/-- The forest after some calls. -/
def runAll (f : Forest) (cs : List Command) : Forest :=
  cs.foldl step f

end Forest

end MarkupForest
