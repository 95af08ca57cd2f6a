import MarkupForest.Json.Reader

/-!
# Titles

The identity of a page: its language, its namespace and its title proper, with the forms in which a
title is shown and addressed.
-/

namespace MarkupForest

/-- A language, by the code that names its wiki. -/
structure Language where
  /-- The code, such as `en`. -/
  code : String
deriving DecidableEq, Repr

namespace Language

/-- English, which stands in wherever no language is given. -/
def english : Language := ⟨"en"⟩

/-- German. -/
def german : Language := ⟨"de"⟩

/-- French. -/
def french : Language := ⟨"fr"⟩

instance : Inhabited Language := ⟨english⟩

/-- The JSON form of a language, its code. -/
def toJson (l : Language) : Json := .str l.code

/-- Reads a language from its code. -/
def read : Json.Reader Language := fun o => Language.mk <$> Json.readString o

end Language

/-- A namespace, by its number. Namespaces are ordered by number. -/
structure Namespace where
  /-- The number of the namespace. -/
  code : Int32
deriving DecidableEq, Repr

namespace Namespace

/-- The namespace of articles. -/
def main : Namespace := ⟨0⟩

/-- The namespace of user pages. -/
def user : Namespace := ⟨2⟩

/-- The namespace of files. -/
def file : Namespace := ⟨6⟩

/-- The namespace of templates. -/
def template : Namespace := ⟨10⟩

/-- The namespace of categories. -/
def category : Namespace := ⟨14⟩

instance : Ord Namespace := ⟨fun a b => compare a.code b.code⟩

/-- The word that stands before titles of the namespace, if it has one. -/
def label? (n : Namespace) : Option String :=
  if n = user then some "User"
  else if n = file then some "File"
  else if n = template then some "Template"
  else if n = category then some "Category"
  else none

/-- The text with the word of the namespace and a colon before it, if the namespace has one. -/
def qualify (n : Namespace) (text : String) : String :=
  match n.label? with
  | some label => label ++ ":" ++ text
  | none => text

/-- The number of the namespace in decimal digits. -/
def text (n : Namespace) : String :=
  String.ofList (Json.digits n.code.toInt)

/-- The JSON form of a namespace, its number. -/
def toJson (n : Namespace) : Json := .int n.code.toInt

/-- Reads a namespace from its number. -/
def read : Json.Reader Namespace := fun o =>
  (fun n => ⟨Int32.ofInt n⟩) <$> Json.readInt Int32.minValue.toInt Int32.maxValue.toInt "i32" o

end Namespace

/-- The title of a page. -/
structure Title where
  /-- The title proper, as it is shown. -/
  name : String
  /-- The namespace. -/
  ns : Namespace
  /-- The language. -/
  language : Language
deriving DecidableEq, Repr

namespace Title

/-- The title of an article in English. -/
def article (name : String) : Title := ⟨name, .main, .english⟩

/-- The title of a template in English. -/
def template (name : String) : Title := ⟨name, .template, .english⟩

/-- The title proper with underscores for spaces. -/
def path (t : Title) : String :=
  String.ofList (t.name.toList.map fun c => if c = ' ' then '_' else c)

/-- The title with underscores for spaces, behind the word of its namespace. -/
def qualifiedPath (t : Title) : String :=
  t.ns.qualify t.path

/-- The address of the page with this title. -/
def address (t : Title) : String :=
  "http://" ++ t.language.code ++ ".wikipedia.org/wiki/" ++ t.qualifiedPath

/-- The title as it is shown, behind the word of its namespace. -/
def qualifiedName (t : Title) : String :=
  t.ns.qualify t.name

/-- The JSON form of a title. -/
def toJson (t : Title) : Json :=
  .obj [("decoded", .str t.name), ("namespace", t.ns.toJson), ("language", t.language.toJson)]

/-- The members of a title that have been read. -/
structure Draft where
  /-- The title proper. -/
  name : Option String := none
  /-- The namespace. -/
  ns : Option Namespace := none
  /-- The language. -/
  language : Option Language := none

/-- Takes up a member of a title and passes over members it does not have. -/
def Draft.member (d : Draft) (name : String) (v : Json.Outline) : Except Json.ReadError Draft := do
  match name with
  | "decoded" => return { d with name := ← Json.once name d.name Json.readString v }
  | "namespace" => return { d with ns := ← Json.once name d.ns Namespace.read v }
  | "language" => return { d with language := ← Json.once name d.language Language.read v }
  | _ => v.skip; return d

/-- The title whose members have been read. -/
def Draft.build (d : Draft) : Except Json.ReadError Title := do
  let name ← Json.require "decoded" d.name
  let ns ← Json.require "namespace" d.ns
  let language ← Json.require "language" d.language
  return ⟨name, ns, language⟩

/-- A title from the items of an array. -/
def ofItems (items : Json.Items) : Except Json.ReadError (Title × Json.Items) := do
  let expected := "struct WikiTitle with 3 elements"
  let (name, items) ← items.expect Json.readString 0 expected
  let (ns, items) ← items.expect Namespace.read 1 expected
  let (language, items) ← items.expect Language.read 2 expected
  return (⟨name, ns, language⟩, items)

/-- Reads a title. -/
def read : Json.Reader Title :=
  Json.RecordReader.read
    { name := "WikiTitle"
      start := {}
      member := Draft.member
      build := Draft.build
      ofItems := ofItems }

end Title

end MarkupForest
