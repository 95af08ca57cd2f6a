import MarkupForest.Id
import MarkupForest.Title

/-!
# Records

Messages that an extraction leaves on the nodes of a page. A record is about a node, about whichever
node it is added to, or about something foreign, and only the first two kinds stay on a node.
-/

namespace MarkupForest

/-- How grave a record is, from the gravest on. -/
inductive Severity where
  /-- Something went wrong. -/
  | error
  /-- Something looks wrong. -/
  | warning
  /-- Something worth knowing. -/
  | info
  /-- Something that helps to find mistakes. -/
  | debug
deriving DecidableEq, Repr, Ord

namespace Severity

instance : Inhabited Severity := ⟨info⟩

/-- All severities by name, the gravest first. -/
def named : List (String × Severity) :=
  [("error", error), ("warning", warning), ("info", info), ("debug", debug)]

/-- The name of a severity. -/
def name : Severity → String
  | error => "error"
  | warning => "warning"
  | info => "info"
  | debug => "debug"

/-- A severity is known by its name. -/
theorem lookup_name (s : Severity) : named.lookup s.name = some s := by
  cases s <;> decide

/-- The JSON form of a severity, its name. -/
def toJson (s : Severity) : Json := .str s.name

/-- Reads a severity from its name. -/
def read : Json.Reader Severity := Json.readChoice named

end Severity

/-- What a record is about. -/
inductive Subject where
  /-- A node. -/
  | node (id : NodeId)
  /-- The node that the record is added to. -/
  | unbound
  /-- Something that is not a node of the forest. -/
  | foreign (name : String)
deriving DecidableEq, Repr

namespace Subject

/-- The kinds of subjects. -/
inductive Tag where
  /-- A given node. -/
  | node
  /-- The node that the record is added to. -/
  | unbound
  /-- Something foreign. -/
  | foreign

/-- The kinds of subjects by name. -/
def tags : List (String × Tag) :=
  [("node", .node), ("default", .unbound), ("foreign", .foreign)]

/-- The JSON form of a subject: its kind, and its id or name. -/
def toJson : Subject → Json
  | node id => .obj [("kind", .str "node"), ("id", id.toJson)]
  | unbound => .obj [("kind", .str "default")]
  | foreign name => .obj [("kind", .str "foreign"), ("name", .str name)]

/-- Reads the kind of a subject. -/
def readTag : Json.Reader Tag := fun o => do
  match ← o.found with
  | .string name => Json.choose tags name
  | found => Json.refuse (.wrongType found "variant identifier")

/-- The members of a subject that have been read: its kind, and the others in order. -/
structure Draft where
  /-- The kind. -/
  tag : Option Tag := none
  /-- The members other than the kind, last one first. -/
  others : List (Option String × Json.Outline) := []

/-- Takes up a member of a subject. The kind may stand anywhere, so other members are kept until it
is known. -/
def Draft.member (depth : Nat) (d : Draft) (name : String) (v : Json.Outline) :
    Except Json.ReadError Draft := do
  if name = "kind" then
    return { d with tag := ← Json.once name d.tag readTag v }
  else
    v.keep depth
    return { d with others := (some name, v) :: d.others }

/-- Takes up the member that a kind of subject has and passes over all others. -/
def only {α : Type} (field : String) (read : Json.Reader α) (earlier : Option α) (name : String)
    (v : Json.Outline) : Except Json.ReadError (Option α) :=
  if name = field then Json.once name earlier read v else .ok earlier

/-- The one field of a subject, out of members in order. -/
def ofMembers {α : Type} (field : String) (read : Json.Reader α)
    (members : List (Option String × Json.Outline)) : Except Json.ReadError α := do
  Json.require field (← Json.foldMembers (only field read) none members)

/-- A list of a given length in words. -/
def elements (n : Nat) : String :=
  String.ofList (Nat.toDigits 10 n) ++ (if n = 1 then " element" else " elements") ++ " in sequence"

/-- The one field of a subject, out of the items after the kind. -/
def ofItems {α : Type} (variant : String) (read : Json.Reader α) (items : List Json.Outline) :
    Except Json.ReadError α := do
  match items with
  | [] =>
    Json.refuse (.wrongLength 0 ("struct variant RecordSubject::" ++ variant ++ " with 1 element"))
  | o :: more =>
    let a ← read o
    if more.isEmpty then return a else Json.refuse (.wrongLength items.length (elements 1))

/-- The subject whose members have been read. -/
def Draft.build (d : Draft) : Except Json.ReadError Subject := do
  match ← Json.require "kind" d.tag with
  | .node => node <$> ofMembers "id" NodeId.read d.others.reverse
  | .unbound => return unbound
  | .foreign => foreign <$> ofMembers "name" Json.readString d.others.reverse

/-- Checks that items can be kept and that their array is closed. -/
def keepItems (depth : Nat) (items : Json.Items) : Except Json.ReadError Unit := do
  Json.keepItems depth items.items
  match items.stray with
  | none => return
  | some f => Json.fail f

/-- A subject from the items of an array, its kind first. -/
def ofArray (depth : Nat) (items : Json.Items) : Except Json.ReadError Subject := do
  match ← items.next readTag with
  | (none, _) => Json.refuse (.missingField "kind")
  | (some tag, rest) =>
    keepItems depth rest
    match tag with
    | .node => node <$> ofItems "Node" NodeId.read rest.items
    | .unbound =>
      if rest.items.isEmpty then return unbound
      else Json.refuse (.wrongLength rest.items.length (elements 0))
    | .foreign => foreign <$> ofItems "Foreign" Json.readString rest.items

/-- Reads a subject that stands where `depth` levels of nesting are left. -/
def read (depth : Nat) : Json.Reader Subject
  | .object members ending => do
    let d ← Json.foldMembers (Draft.member (depth - 1)) {} members
    ending.finish
    d.build
  | .array items stray => ofArray (depth - 1) ⟨items, stray⟩
  | o => Json.wrongType "internally tagged enum RecordSubject" o

end Subject

/-- A message about a subject. -/
structure Record where
  /-- What the record is about. -/
  subject : Subject
  /-- The language it concerns. -/
  language : Option Language
  /-- The message. -/
  message : String
  /-- Whether it reports an error. -/
  isError : Bool
  /-- How grave it is. -/
  severity : Severity
deriving DecidableEq, Repr

namespace Record

/-- A plain record about a subject. -/
def about (subject : Subject) (message : String) : Record :=
  ⟨subject, none, message, false, .info⟩

/-- The record as an error of the given severity. -/
def asError (r : Record) (severity : Severity) : Record :=
  { r with isError := true, severity := severity }

/-- The record with the given severity, an error or not as before. -/
def withSeverity (r : Record) (severity : Severity) : Record :=
  { r with severity := severity }

/-- The record as one that concerns the given language. -/
def withLanguage (r : Record) (language : Language) : Record :=
  { r with language := some language }

/-- The record in the form in which it stays on a node: an unbound one is bound to the node, and a
foreign one does not stay. -/
def boundTo (r : Record) (node : NodeId) : Option Record :=
  match r.subject with
  | .node _ => some r
  | .unbound => some { r with subject := .node node, language := some (r.language.getD .english) }
  | .foreign _ => none

/-- The JSON form of a record. The language is left out if there is none. -/
def toJson (r : Record) : Json :=
  .obj ([("subject", r.subject.toJson)]
    ++ (match r.language with
      | some l => [("language", l.toJson)]
      | none => [])
    ++ [("message", .str r.message), ("is_error", .bool r.isError),
      ("severity", r.severity.toJson)])

/-- The members of a record that have been read. -/
structure Draft where
  /-- The subject. -/
  subject : Option Subject := none
  /-- The language, which may be null. -/
  language : Option (Option Language) := none
  /-- The message. -/
  message : Option String := none
  /-- Whether it reports an error. -/
  isError : Option Bool := none
  /-- How grave it is. -/
  severity : Option Severity := none

/-- Reads the subject of a record. -/
def readSubject : Json.Reader Subject := Subject.read (Json.nestingLimit - 1)

/-- Takes up a member of a record and passes over members it does not have. -/
def Draft.member (d : Draft) (name : String) (v : Json.Outline) : Except Json.ReadError Draft := do
  match name with
  | "subject" => return { d with subject := ← Json.once name d.subject readSubject v }
  | "language" =>
    return { d with language := ← Json.once name d.language (Json.readOption Language.read) v }
  | "message" => return { d with message := ← Json.once name d.message Json.readString v }
  | "is_error" => return { d with isError := ← Json.once name d.isError Json.readBool v }
  | "severity" => return { d with severity := ← Json.once name d.severity Severity.read v }
  | _ => v.skip; return d

/-- The record whose members have been read. -/
def Draft.build (d : Draft) : Except Json.ReadError Record := do
  let subject ← Json.require "subject" d.subject
  let message ← Json.require "message" d.message
  return ⟨subject, d.language.join, message, d.isError.getD false, d.severity.getD .info⟩

/-- A record from the items of an array. -/
def ofItems (items : Json.Items) : Except Json.ReadError (Record × Json.Items) := do
  let expected := "struct RecordEntry with 5 elements"
  let (subject, items) ← items.expect readSubject 0 expected
  let (language, items) ← items.expect (Json.readOption Language.read) 1 expected
  let (message, items) ← items.expect Json.readString 2 expected
  let (isError, items) ← items.next Json.readBool
  let (severity, items) ← items.next Severity.read
  return (⟨subject, language, message, isError.getD false, severity.getD .info⟩, items)

/-- Reads a record. -/
def read : Json.Reader Record :=
  Json.RecordReader.read
    { name := "RecordEntry"
      start := {}
      member := Draft.member
      build := Draft.build
      ofItems := ofItems }

end Record

end MarkupForest
