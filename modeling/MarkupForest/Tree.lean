import MarkupForest.Id
import MarkupForest.Kind

/-!
# Trees

A node of a forest together with everything below it. Whatever is read out of a node and its
descendants, such as its markup or its text, is a function of this tree.
-/

namespace MarkupForest

/-- A node by itself: its id, what it is, and the line it stands on. -/
structure Node where
  /-- The id. -/
  id : NodeId
  /-- What the node is. -/
  kind : Kind
  /-- The line the node stands on. -/
  line : UInt32
deriving DecidableEq, Repr

/-- A node as it is shown. -/
def Node.describe (n : Node) : String :=
  "WikiNode \x7b id: NodeId(" ++ String.ofList (Nat.toDigits 10 n.id.index) ++ "), type: "
    ++ n.kind.tag.name ++ ", line: " ++ String.ofList (Nat.toDigits 10 n.line.toNat) ++ " \x7d"

/-- A node and the trees of its children in order. -/
inductive Tree where
  /-- The tree of a node. -/
  | mk (root : Node) (children : List Tree)

namespace Tree

/-- The node at the top. -/
def root : Tree → Node
  | mk n _ => n

/-- The trees of the children of the node at the top. -/
def children : Tree → List Tree
  | mk _ ts => ts

/-- A property of all trees, passed on from the children of a node to the node. -/
@[induction_eliminator]
theorem induction {P : Tree → Prop}
    (mk : ∀ (root : Node) (children : List Tree), (∀ t ∈ children, P t) → P (mk root children))
    (t : Tree) : P t :=
  @Tree.rec P (fun ts => ∀ t ∈ ts, P t) mk (fun _ h => absurd h List.not_mem_nil)
    (fun _ _ ht hts => List.forall_mem_cons.2 ⟨ht, hts⟩) t

mutual

/-- All nodes of the tree, each before its descendants. -/
def preorder : Tree → List Node
  | mk n ts => n :: preorders ts

/-- All nodes of some trees, one tree after the other. -/
def preorders : List Tree → List Node
  | [] => []
  | t :: ts => preorder t ++ preorders ts

end

theorem preorders_eq_flatMap (ts : List Tree) : preorders ts = ts.flatMap preorder := by
  induction ts with
  | nil => rfl
  | cons t ts ih => simp [preorders, ih]

theorem preorder_mk (n : Node) (ts : List Tree) :
    (mk n ts).preorder = n :: ts.flatMap preorder := by
  rw [preorder, preorders_eq_flatMap]

variable {α : Type}

mutual

/-- Combines a tree from the bottom up: `f` makes the result of a node from those of its children.
-/
def fold (f : Node → List α → α) : Tree → α
  | mk n ts => f n (folds f ts)

/-- Combines each of some trees. -/
def folds (f : Node → List α → α) : List Tree → List α
  | [] => []
  | t :: ts => fold f t :: folds f ts

end

theorem folds_eq_map (f : Node → List α → α) (ts : List Tree) : folds f ts = ts.map (fold f) := by
  induction ts with
  | nil => rfl
  | cons t ts ih => simp [folds, ih]

theorem fold_mk (f : Node → List α → α) (n : Node) (ts : List Tree) :
    fold f (mk n ts) = f n (ts.map (fold f)) := by
  rw [fold, folds_eq_map]

end Tree

end MarkupForest
