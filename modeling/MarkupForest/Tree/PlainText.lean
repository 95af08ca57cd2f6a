import MarkupForest.Tree

/-!
# Plain text

The text of a tree as a reader sees it: calls are left out, links without a label show where they
lead, and tables are laid out by line ends and tabs.
-/

namespace MarkupForest

/-- The plain text of a node of a kind, given the plain texts of its children. -/
def Kind.plainText : Kind → List String → String
  | template _, _ => ""
  | parserFunction _, _ => ""
  | text s, _ => s
  | internalLink destination, parts =>
    if parts.isEmpty then destination.name else String.join parts
  | externalLink destination, parts =>
    if parts.isEmpty then destination else String.join parts
  | table _, parts => String.join (parts.map (· ++ "\n"))
  | tableRow, parts => "\t".intercalate parts
  | _, parts => String.join parts

/-- The plain text of a tree. -/
def Tree.plainText (t : Tree) : String :=
  t.fold fun n parts => n.kind.plainText parts

end MarkupForest
