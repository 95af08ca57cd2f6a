import MarkupForest.Title

/-!
# Kinds of nodes

What a node of a page can be, with the data that goes with it.
-/

namespace MarkupForest

/-- A page: its title, its number and the number of its revision, which is below zero if it has
none. -/
structure Page where
  /-- The title. -/
  title : Title
  /-- The number of the page. -/
  id : Int64
  /-- The number of the revision. -/
  revision : Int64
deriving DecidableEq, Repr

/-- Whether the page is a stored revision. -/
def Page.isStored (p : Page) : Bool :=
  0 ≤ p.revision

/-- The kinds of nodes without their data. -/
inductive KindTag where
  /-- A page. -/
  | page
  /-- A section heading. -/
  | heading
  /-- A template call. -/
  | template
  /-- An argument of a template or parser function. -/
  | argument
  /-- Running text. -/
  | text
  /-- A link to a page. -/
  | internalLink
  /-- A link to another site. -/
  | externalLink
  /-- A table. -/
  | table
  /-- A row of a table. -/
  | tableRow
  /-- A cell of a table. -/
  | tableCell
  /-- A parser function call. -/
  | parserFunction
deriving DecidableEq, Repr

namespace KindTag

/-- All kinds by name. -/
def named : List (String × KindTag) :=
  [("Page", page), ("Section", heading), ("Template", template), ("Property", argument),
    ("Text", text), ("InternalLink", internalLink), ("ExternalLink", externalLink),
    ("Table", table), ("TableRow", tableRow), ("TableCell", tableCell),
    ("ParserFunction", parserFunction)]

/-- The name of a kind. -/
def name : KindTag → String
  | page => "Page"
  | heading => "Section"
  | template => "Template"
  | argument => "Property"
  | text => "Text"
  | internalLink => "InternalLink"
  | externalLink => "ExternalLink"
  | table => "Table"
  | tableRow => "TableRow"
  | tableCell => "TableCell"
  | parserFunction => "ParserFunction"

/-- A kind is known by its name. -/
theorem lookup_name (k : KindTag) : named.lookup k.name = some k := by
  cases k <;> decide

/-- The JSON form of a kind, its name. -/
def toJson (k : KindTag) : Json := .str k.name

/-- Reads a kind from its name. -/
def read : Json.Reader KindTag := Json.readChoice named

end KindTag

/-- What a node is. -/
inductive Kind where
  /-- A page. -/
  | page (page : Page)
  /-- The heading of a section, with its name and level. -/
  | heading (name : String) (level : UInt8)
  /-- A call of the template with the given title. -/
  | template (title : Title)
  /-- An argument with the given key. -/
  | argument (key : String)
  /-- Running text. -/
  | text (text : String)
  /-- A link to the page with the given title. -/
  | internalLink (destination : Title)
  /-- A link to the given address. -/
  | externalLink (destination : String)
  /-- A table, maybe with a caption. -/
  | table (caption : Option String)
  /-- A row of a table. -/
  | tableRow
  /-- A cell of a table. -/
  | tableCell
  /-- A call of the parser function with the given name. -/
  | parserFunction (name : String)
deriving DecidableEq, Repr

namespace Kind

/-- The kind without its data. -/
def tag : Kind → KindTag
  | page _ => .page
  | heading _ _ => .heading
  | template _ => .template
  | argument _ => .argument
  | text _ => .text
  | internalLink _ => .internalLink
  | externalLink _ => .externalLink
  | table _ => .table
  | tableRow => .tableRow
  | tableCell => .tableCell
  | parserFunction _ => .parserFunction

/-- The text of a text node. -/
def text? : Kind → Option String
  | text s => some s
  | _ => none

/-- The page of a page node. -/
def page? : Kind → Option Page
  | page p => some p
  | _ => none

/-- Whether the kind is a page. -/
def isPage (k : Kind) : Bool := k.page?.isSome

/-- Whether the kind is the heading of a section. -/
def isHeading (k : Kind) : Bool := k.tag == .heading

/-- The name of a section, by its heading. -/
def headingName? : Kind → Option String
  | heading name _ => some name
  | _ => none

/-- The title of a template. -/
def template? : Kind → Option Title
  | template t => some t
  | _ => none

/-- The key of an argument. -/
def key? : Kind → Option String
  | argument key => some key
  | _ => none

/-- Whether a node of this kind takes arguments. -/
def takesArguments : Kind → Bool
  | template _ => true
  | parserFunction _ => true
  | _ => false

end Kind

end MarkupForest
