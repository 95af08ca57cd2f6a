import MarkupForest.Tree

/-!
# Trees as JSON

The JSON form of a tree: for each node its kind, its line, the data shown of its kind, and the JSON
forms of its children if it has any.
-/

namespace MarkupForest

/-- The members that show the data of a kind. -/
def Kind.members : Kind → List (String × Json)
  | page p => [("title", .str p.title.qualifiedName), ("revision", .int p.revision.toInt)]
  | heading name level => [("name", .str name), ("level", .int level.toNat)]
  | template title => [("title", .str title.name)]
  | argument key => [("key", .str key)]
  | text s => [("value", .str s)]
  | internalLink destination => [("destination", .str destination.qualifiedName)]
  | externalLink destination => [("destination", .str destination)]
  | table (some caption) => [("caption", .str caption)]
  | table none => []
  | tableRow => []
  | tableCell => []
  | parserFunction name => [("name", .str name)]

/-- The JSON form of a node, given those of its children. -/
def Node.toJson (n : Node) (parts : List Json) : Json :=
  .obj ([("type", n.kind.tag.toJson), ("line", .int n.line.toNat)] ++ n.kind.members
    ++ (if parts.isEmpty then [] else [("children", .arr parts)]))

/-- The JSON form of a tree. -/
def Tree.toJson (t : Tree) : Json :=
  t.fold Node.toJson

end MarkupForest
