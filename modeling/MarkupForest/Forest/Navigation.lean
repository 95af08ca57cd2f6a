import MarkupForest.Digest.Blake3
import MarkupForest.Forest.Basic
import MarkupForest.Forest.Failure
import MarkupForest.Tree.Markup

/-!
# Navigation

The place of a node: the page it belongs to, the section it stands in, the hash of its content, and
the addresses made from them. Each of root, section and hash is found out once per node, and the
first answer is kept. The functions that find it out (`findRoot`, `findSection`, `findFingerprint`)
look at nothing that has been kept; the functions that keep it return the forest that remembers the
answer.
-/

namespace MarkupForest.Forest

/-- The page at the top of a node's tree. -/
def findRoot (f : Forest) (n : NodeId) : Except Refusal NodeId :=
  if f.isPage (f.top n) then .ok (f.top n) else .error (.rootNotPage n (f.top n))

/-- The heading of the section that a line stands in, on the page `root`: the last heading among the
children of the page up to the first one that stands on a later line. -/
def findSection (f : Forest) (root : NodeId) (line : UInt32) : Option NodeId :=
  (((f.children root).takeWhile fun c => f.line c ≤ line).filter f.isHeading).getLast?

/-- The markup of a node. -/
def markup (f : Forest) (n : NodeId) : String :=
  ((f.tree? n).map Tree.markup).getD ""

/-- The bytes of a number, `count` of them, the lowest first. -/
def littleEndian : Nat → Nat → List UInt8
  | 0, _ => []
  | count + 1, n => UInt8.ofNat n :: littleEndian count (n / 256)

/-- The bytes whose hash is the content hash of a node: the revision of its page, its line and its
markup. -/
def fingerprintInput (revision : Int64) (line : UInt32) (markup : String) : List UInt8 :=
  littleEndian 8 revision.toUInt64.toNat ++ littleEndian 4 line.toNat ++ markup.toUTF8.data.toList

/-- The revision of a page. -/
def revision (f : Forest) (page : NodeId) : Int64 :=
  ((f.page? page).map (·.revision)).getD 0

/-- The hash of a node's content, on the page `root`. -/
def findFingerprint (f : Forest) (root n : NodeId) : UInt64 :=
  Digest.Blake3.hash64 (fingerprintInput (f.revision root) (f.line n) (f.markup n))

/-- Changes what is kept about the place of a node. -/
def remember (f : Forest) (n : NodeId) (g : Memo → Memo) : Forest :=
  f.modify n fun e => { e with memo := g e.memo }

/-- The page a node belongs to. -/
def root (f : Forest) (n : NodeId) : Except Refusal (NodeId × Forest) :=
  match (f.memo n).root with
  | some r => .ok (r, f)
  | none =>
    match f.findRoot n with
    | .ok r => .ok (r, f.remember n fun m => { m with root := some r })
    | .error e => .error e

/-- The heading of the section a node stands in, if there is one. -/
def enclosingSection (f : Forest) (n : NodeId) : Except Refusal (Option NodeId × Forest) :=
  match (f.memo n).heading with
  | some s => .ok (s, f)
  | none =>
    match f.root n with
    | .ok (r, f) =>
      let s := f.findSection r (f.line n)
      .ok (s, f.remember n fun m => { m with heading := some s })
    | .error e => .error e

/-- The hash of a node's content. -/
def fingerprint (f : Forest) (n : NodeId) : Except Refusal (UInt64 × Forest) :=
  match (f.memo n).fingerprint with
  | some h => .ok (h, f)
  | none =>
    match f.root n with
    | .ok (r, f) =>
      let h := f.findFingerprint r n
      .ok (h, f.remember n fun m => { m with fingerprint := some h })
    | .error e => .error e

/-- The number of the page that a node is. -/
def pageNumber? (f : Forest) (n : NodeId) : Option Int64 :=
  (f.page? n).map (·.id)

/-- Where the numbers of nodes that are not pages begin. -/
def numberOffset : Int64 := 4611686018427387904

/-- The number that a content hash stands for, above all numbers of pages. -/
def numberOf (hash : UInt64) : Int64 :=
  (hash >>> 2).toInt64 + numberOffset

/-- The number of a node: that of the page that it is, or one made from its content hash. -/
def ident (f : Forest) (n : NodeId) : Except Refusal (Int64 × Forest) :=
  match f.pageNumber? n with
  | some id => .ok (id, f)
  | none =>
    match f.fingerprint n with
    | .ok (h, f) => .ok (numberOf h, f)
    | .error e => .error e

/-- The address of a page in the revision that it is. -/
def revisionAddress (p : Page) : String :=
  if p.isStored then
    p.title.address ++ "?oldid=" ++ String.ofList (Json.digits p.revision.toInt) ++ "&ns="
      ++ p.title.ns.text
  else p.title.address

/-- The address of the page a node belongs to, in the revision that it is. -/
def pageAddress (f : Forest) (n : NodeId) : Except Refusal (String × Forest) :=
  match f.root n with
  | .ok (r, f) => .ok (((f.page? r).map revisionAddress).getD "", f)
  | .error e => .error e

/-- The part of an address that says where on the page a line is. -/
def addressFragment (f : Forest) (line : UInt32) : Option NodeId → String
  | some s =>
    let name := ((f.kind? s).bind Kind.headingName?).getD ""
    "#section=" ++ String.ofList (name.toList.map fun c => if c = ' ' then '_' else c)
      ++ "&relative-line=" ++ String.ofList (Nat.toDigits 10 (line.toNat - (f.line s).toNat))
      ++ "&absolute-line=" ++ String.ofList (Nat.toDigits 10 line.toNat)
  | none =>
    if line = 0 then "" else "#absolute-line=" ++ String.ofList (Nat.toDigits 10 line.toNat)

/-- The address of a node: that of its page, and where on the page it is. -/
def address (f : Forest) (n : NodeId) : Except Refusal (String × Forest) :=
  match f.pageAddress n with
  | .ok (source, f) =>
    match f.enclosingSection n with
    | .ok (s, f) => .ok (source ++ f.addressFragment (f.line n) s, f)
    | .error e => .error e
  | .error e => .error e

end MarkupForest.Forest
