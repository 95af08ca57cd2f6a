import MarkupForest.Event
import MarkupForest.Tree.Contribution
import MarkupForest.Uri.Overlap
import MarkupForest.Uri.Settings
import MarkupForest.Uri.Slug
import MarkupForest.Uri.Tally

/-!
# Issuing URIs

An issuer makes readable URIs below a base. The base and the slug of a text give the stem of a URI,
and the number of times that the stem has come up tells URIs with the same stem apart.
-/

namespace MarkupForest.Uri

/-- What stands between the parts of a URI. -/
def separator : String := "__"

/-- The part of a stem after the base: the slug of the text less its overlap with the base and less
one leading underscore. -/
def tail (limit : Nat) (base text : String) : String :=
  match dropOverlap base.toList (slug limit text.toList) with
  | '_' :: cs => String.ofList cs
  | cs => String.ofList cs

/-- The stem of a URI for a base and a text. -/
def stem (limit : Nat) (base text : String) : String :=
  if text.isEmpty then base else base ++ separator ++ tail limit base text

/-- Makes URIs and remembers how often each stem has come up. -/
structure Issuer where
  /-- The greatest number of characters taken from a text. -/
  limit : Nat
  /-- How often each stem has come up. -/
  tally : Tally := {}

namespace Issuer

/-- A new issuer with the given settings. -/
def ofSettings (s : Settings) : Issuer :=
  { limit := s.textLimit.toNat }

/-- The number of different stems so far. -/
def stemCount (i : Issuer) : Nat := i.tally.size

/-- Makes a URI from a base and a text. -/
def issue (i : Issuer) (base text : String) : String × Issuer :=
  let s := stem i.limit base text
  let tally := i.tally.add s
  (s ++ separator ++ String.ofList (Nat.toDigits 10 (tally.count s).toNat),
    { i with tally := tally })

/-- Makes a URI from a base and the text that a tree contributes, or from the base alone. -/
def issueFor (i : Issuer) (base : String) (t : Option Tree) : String × Issuer :=
  i.issue base ((t.map Tree.contribution).getD "")

end Issuer

/-- What is reported when a URI is made. -/
def issueEvents (uri : String) : List Event := [.minted uri]

end MarkupForest.Uri
