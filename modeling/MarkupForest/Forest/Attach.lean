import MarkupForest.Event
import MarkupForest.Forest.Basic

/-!
# Annotations and records of nodes

Attaching values to the nodes of a forest and leaving records on them.
-/

namespace MarkupForest.Forest

/-- Attaches a value to a node. -/
def annotate {τ : Annotation.ValueType} (f : Forest) (n : NodeId) (key : Annotation.Key τ)
    (value : τ.Value) : Forest :=
  f.modify n fun e => { e with annotations := e.annotations.insert key value }

/-- Leaves a record on a node, in the form in which the node adopts it. A record about something
foreign is dropped. -/
def addRecord (f : Forest) (n : NodeId) (r : Record) : List Event × Forest :=
  match r.boundTo n with
  | some r =>
    ([.recorded n (f.line n) r.message], f.modify n fun e => { e with records := e.records ++ [r] })
  | none => ([.dropped n], f)

end MarkupForest.Forest
