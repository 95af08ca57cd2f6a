/-!
# Percent escapes

Text as it stands inside a URI. A space becomes an underscore; a control character and the
delimiters that would end or break a URI are written as the percent escapes of their UTF-8 bytes;
every other character stands for itself.
-/

namespace MarkupForest.Uri

/-- A hexadecimal digit, with capital letters above nine. -/
def hexDigit (n : Nat) : Char :=
  (Nat.digitChar n).toUpper

/-- A byte as a percent sign and two hexadecimal digits. -/
def percentByte (b : UInt8) : List Char :=
  ['%', hexDigit (b.toNat / 16), hexDigit (b.toNat % 16)]

/-- The printable characters that never stand for themselves in a URI. -/
def delimiters : List Char :=
  ['"', '#', '%', '<', '>', '[', '\\', ']', '^', '\x60', '\x7b', '|', '\x7d']

/-- Whether a character is a control character: below the space, or from DEL to the end of the
second block of controls. -/
def isControl (c : Char) : Bool :=
  c.toNat < 0x20 || (0x7F ≤ c.toNat && c.toNat < 0xA0)

/-- Whether a character is written as percent escapes. -/
def mustEscape (c : Char) : Bool :=
  isControl c || delimiters.contains c

/-- A character as it stands inside a URI. -/
def escapeChar (c : Char) : List Char :=
  if c = ' ' then ['_']
  else if mustEscape c then (String.utf8EncodeChar c).flatMap percentByte
  else [c]

/-- Text as it stands inside a URI. -/
def escape (cs : List Char) : List Char :=
  cs.flatMap escapeChar

end MarkupForest.Uri
