import MarkupForest.Text.Lowercase

/-!
# Overlap of a base and a text

A base URI often ends in words with which the text to be added begins. The words that the base ends
in already are then left out of the text.
-/

namespace MarkupForest.Uri

/-- Whether a character ends a word of a base URI. -/
def isSeparator (c : Char) : Bool :=
  c == '_' || c == '/'

/-- Whether the last `k` characters of the base are, up to case, the first `k` of the text. -/
def overlapsBy (base text : List Char) (k : Nat) : Bool :=
  ((base.drop (base.length - k)).zip text).all fun (a, b) => Text.sameLetter a b

/-- The numbers of characters by which a text can overlap a base: from the length of the last word
of the base on, always fewer than the base and the text have. A base that is a single word allows
none. -/
def overlapLengths (base text : List Char) : List Nat :=
  if base.any isSeparator then
    let lastWord := (base.reverse.takeWhile fun c => !isSeparator c).length
    List.range' lastWord (min base.length text.length - lastWord)
  else []

/-- The text without the characters by which it overlaps the base, as few of them as possible. -/
def dropOverlap (base text : List Char) : List Char :=
  text.drop (((overlapLengths base text).find? (overlapsBy base text)).getD 0)

end MarkupForest.Uri
