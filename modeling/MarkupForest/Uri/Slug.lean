import MarkupForest.Uri.Escape

/-!
# Slugs

How running text of a page becomes the readable part of a URI: emphasis quotes and tags go, white
space is tidied, punctuation is dropped, and what is left is cut to length and escaped. Each step is
a function on characters; `slug` is their composition.
-/

namespace MarkupForest.Uri

/-- Whether a character is white space that `tidySpace` treats as a gap between words. -/
def isBlank (c : Char) : Bool :=
  c == ' ' || c == '\t' || c == '\n' || c == '\x0b' || c == '\x0c' || c == '\r'

/-- Deletes every run of two or more apostrophes, given whether an apostrophe stands just before. An
apostrophe goes if it has another one as a neighbour. -/
def dropEmphasisAfter (quoteBefore : Bool) : List Char → List Char
  | [] => []
  | c :: cs =>
    if c = '\x27' then
      if quoteBefore || cs.head? == some '\x27' then dropEmphasisAfter true cs
      else c :: dropEmphasisAfter true cs
    else c :: dropEmphasisAfter false cs

/-- Deletes every run of two or more apostrophes, the marks of emphasis, and keeps single ones. -/
def dropEmphasis (cs : List Char) : List Char :=
  dropEmphasisAfter false cs

/-- Deletes tags, given whether the text starts inside one. A tag runs from a `<` that has a later
`>` up to the first such `>`. -/
def dropTagsFrom (inTag : Bool) : List Char → List Char
  | [] => []
  | c :: cs =>
    if inTag then dropTagsFrom (c != '>') cs
    else if c = '<' && cs.contains '>' then dropTagsFrom true cs
    else c :: dropTagsFrom false cs

/-- Deletes tags: from each `<` with a later `>` up to the first such `>`. -/
def dropTags (cs : List Char) : List Char :=
  dropTagsFrom false cs

/-- Writes one space for every run of blanks, given whether a blank stands just before. -/
def collapseBlanks (blankBefore : Bool) : List Char → List Char
  | [] => []
  | c :: cs =>
    if isBlank c then
      if blankBefore then collapseBlanks true cs else ' ' :: collapseBlanks true cs
    else c :: collapseBlanks false cs

/-- Whether a character is white space that is removed at the ends of a text: the usual white space,
the form feed and the vertical tab. -/
def isMargin (c : Char) : Bool :=
  c.isWhitespace || c == '\x0c' || c == '\x0b'

/-- Removes the white space at both ends. -/
def trimBlanks (cs : List Char) : List Char :=
  ((cs.dropWhile isMargin).reverse.dropWhile isMargin).reverse

/-- Removes the white space at both ends and writes one space for every run of blanks between
words. -/
def tidySpace (cs : List Char) : List Char :=
  collapseBlanks false (trimBlanks cs)

/-- Writes a space for every `&nbsp;`. -/
def plainSpaces : List Char → List Char
  | [] => []
  | '&' :: 'n' :: 'b' :: 's' :: 'p' :: ';' :: cs => ' ' :: plainSpaces cs
  | c :: cs => c :: plainSpaces cs

/-- Whether a character of running text counts as a gap: parentheses, line ends, tabs and two
control characters that stand for quotation marks. -/
def isGap (c : Char) : Bool :=
  c == '(' || c == ')' || c == '\n' || c == '\r' || c == '\t' || c == '\u0091' || c == '\u0092'

/-- Whether a character is punctuation that a slug leaves out. -/
def isPunctuation (c : Char) : Bool :=
  c == '!' || c == ',' || c == '.' || c == ':' || c == ';' || c == '?'

/-- Text with markup, gaps and punctuation removed, before it is cut to length and escaped. -/
def plainWords (cs : List Char) : List Char :=
  let gapped := (plainSpaces (dropEmphasis cs)).map fun c => if isGap c then ' ' else c
  tidySpace ((dropTags gapped).filter fun c => !isPunctuation c)

/-- The slug of a text: its plain words, at most `limit` characters of them, escaped. -/
def slug (limit : Nat) (cs : List Char) : List Char :=
  escape ((plainWords cs).take limit)

end MarkupForest.Uri
