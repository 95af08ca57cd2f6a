import MarkupForest.Json.Reader

/-!
# Settings

How URIs are made: how much of a text goes into a URI, and which URIs are kept apart.
-/

namespace MarkupForest.Uri

/-- Which URIs are kept apart from each other. -/
inductive Scope where
  /-- Those made in one call. -/
  | perNode
  /-- All of them. -/
  | shared
deriving DecidableEq, Repr

namespace Scope

/-- All scopes by name. -/
def named : List (String × Scope) :=
  [("perNode", perNode), ("shared", shared)]

/-- The name of a scope. -/
def name : Scope → String
  | perNode => "perNode"
  | shared => "shared"

/-- A scope is known by its name. -/
theorem lookup_name (s : Scope) : named.lookup s.name = some s := by
  cases s <;> decide

/-- The JSON form of a scope, its name. -/
def toJson (s : Scope) : Json := .str s.name

/-- Reads a scope from its name. -/
def read : Json.Reader Scope := Json.readChoice named

end Scope

/-- How URIs are made. -/
structure Settings where
  /-- The greatest number of characters taken from a text. -/
  textLimit : UInt64 := 50
  /-- Which URIs are kept apart. -/
  scope : Scope := .perNode
deriving DecidableEq, Repr

/-- Why settings cannot be used. -/
inductive SettingsError where
  /-- They would take no characters from a text. -/
  | noTextChars
  /-- They cannot be read. -/
  | unreadable (error : Json.ReadError)

/-- The text of the error, if it has one. -/
def SettingsError.message? : SettingsError → Option String
  | .noTextChars => some "Configuration error: maxTextChars must be greater than 0"
  | .unreadable e => e.message?.map ("Failed to parse configuration: " ++ ·)

namespace Settings

/-- The JSON form of settings. -/
def toJson (s : Settings) : Json :=
  .obj [("maxTextChars", .int s.textLimit.toNat), ("scope", s.scope.toJson)]

/-- Reads the greatest number of characters taken from a text. -/
def readLimit : Json.Reader UInt64 := fun o =>
  (fun n => UInt64.ofNat n.toNat) <$> Json.readInt 0 0xFFFFFFFFFFFFFFFF "usize" o

/-- The members of settings that have been read. -/
structure Draft where
  /-- The greatest number of characters taken from a text. -/
  textLimit : Option UInt64 := none
  /-- Which URIs are kept apart. -/
  scope : Option Scope := none

/-- Takes up a member of settings and refuses members they do not have. -/
def Draft.member (d : Draft) (name : String) (v : Json.Outline) : Except Json.ReadError Draft := do
  match name with
  | "maxTextChars" => return { d with textLimit := ← Json.once name d.textLimit readLimit v }
  | "scope" => return { d with scope := ← Json.once name d.scope Scope.read v }
  | _ => Json.refuse (.unknownField name ["maxTextChars", "scope"])

/-- The settings whose members have been read, with the usual values for the other members. -/
def Draft.build (d : Draft) : Settings :=
  let usual : Settings := {}
  ⟨d.textLimit.getD usual.textLimit, d.scope.getD usual.scope⟩

/-- Settings from the items of an array, with the usual values for items that are not there. -/
def ofItems (items : Json.Items) : Except Json.ReadError (Settings × Json.Items) := do
  let (textLimit, items) ← items.next readLimit
  let (scope, items) ← items.next Scope.read
  return (Draft.build ⟨textLimit, scope⟩, items)

/-- Reads settings. -/
def read : Json.Reader Settings :=
  Json.RecordReader.read
    { name := "UriConfig"
      start := {}
      member := Draft.member
      build := fun d => .ok d.build
      ofItems := ofItems }

/-- Checks that some characters are taken from a text. -/
def validate (s : Settings) : Except SettingsError Settings :=
  if s.textLimit = 0 then .error .noTextChars else .ok s

/-- Settings that can be used, from a text. -/
def parse (text : String) : Except SettingsError Settings :=
  match Json.parse read text with
  | .ok s => s.validate
  | .error e => .error (.unreadable e)

end Settings

end MarkupForest.Uri
