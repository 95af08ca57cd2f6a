import MarkupForest.Id

/-!
# Events

What operations report while they succeed, each at a level that says how much it matters.
-/

namespace MarkupForest

/-- What is reported while an operation goes on. -/
inductive Event where
  /-- A subtree is moved although something is remembered about its place. -/
  | staleMove (child parent : NodeId)
  /-- A record is added to a node. -/
  | recorded (node : NodeId) (line : UInt32) (message : String)
  /-- A record about something foreign is dropped. -/
  | dropped (node : NodeId)
  /-- A URI is made. -/
  | minted (uri : String)
deriving DecidableEq, Repr

/-- The level and text of an event. -/
def Event.text : Event → String
  | staleMove child parent =>
    "WARN Reparenting " ++ child.text ++ " under " ++ parent.text
      ++ " after navigation; cached root/section values are stale"
  | recorded node line message =>
    "DEBUG Record on node " ++ node.text ++ " (line " ++ String.ofList (Nat.toDigits 10 line.toNat)
      ++ "): " ++ message
  | dropped node => "TRACE Discarding foreign-subject record on node " ++ node.text
  | minted uri => "DEBUG Minted " ++ uri

end MarkupForest
