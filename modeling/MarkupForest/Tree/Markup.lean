import MarkupForest.Tree

/-!
# Markup

The wiki markup that a tree stands for, put together from the markup of its parts.
-/

namespace MarkupForest

/-- Whether a key is a position rather than a name: decimal digits, maybe behind a plus sign, that
stand for a number below `2 ^ 32`. -/
def isPosition (key : String) : Bool :=
  let digits :=
    match key.toList with
    | '+' :: cs => cs
    | cs => cs
  !digits.isEmpty && digits.all Char.isDigit && Nat.ofDigitChars 10 digits 0 < UInt32.size

/-- The mark around a heading of the given level. -/
def headingMark (level : UInt8) : String :=
  String.ofList (List.replicate level.toNat '=')

/-- The markup of a node of a kind, given the markup of its children. -/
def Kind.markup : Kind → List String → String
  | page _, parts => String.join parts
  | heading _ level, parts => headingMark level ++ String.join parts ++ headingMark level
  | template title, parts =>
    "\x7b\x7b" ++ title.name ++ String.join (parts.map ("|" ++ ·)) ++ "\x7d\x7d"
  | parserFunction name, parts =>
    "\x7b\x7b#" ++ name ++ ":" ++ "|".intercalate parts ++ "\x7d\x7d"
  | argument key, parts =>
    (if isPosition key then "" else key ++ "=") ++ String.join parts
  | text s, _ => s
  | internalLink destination, parts =>
    "[[" ++ destination.qualifiedName
      ++ (if parts.isEmpty then "" else "|" ++ String.join parts) ++ "]]"
  | externalLink destination, parts =>
    "[" ++ destination ++ (if parts.isEmpty then "" else " " ++ String.join parts) ++ "]"
  | table caption, parts =>
    "\x7b|\n" ++ (match caption with
      | some c => "|+ " ++ c ++ "\n"
      | none => "") ++ String.join parts ++ "|\x7d"
  | tableRow, parts => "|-\n" ++ String.join parts
  | tableCell, parts => "| " ++ String.join parts ++ "\n"

/-- The markup of a tree. -/
def Tree.markup (t : Tree) : String :=
  t.fold fun n parts => n.kind.markup parts

end MarkupForest
