import MarkupForest.Json.Reader

/-!
# Node ids

Nodes are numbered in the order in which they are made, from zero on, by 32-bit numbers.
-/

namespace MarkupForest

/-- The number of a node. Ids are ordered by number. -/
structure NodeId where
  /-- The number as a word. -/
  word : UInt32
deriving DecidableEq, Repr

namespace NodeId

/-- The number of the node. -/
def index (n : NodeId) : Nat := n.word.toNat

/-- The id with the given number. -/
def ofIndex (i : Nat) : NodeId := ⟨UInt32.ofNat i⟩

/-- Ids with the same number are equal. -/
theorem index_inj {a b : NodeId} : a.index = b.index ↔ a = b := by
  obtain ⟨a⟩ := a
  obtain ⟨b⟩ := b
  simp [index, UInt32.toNat_inj]

/-- The number of an id made from a number below the bound of a word. -/
theorem index_ofIndex {i : Nat} (h : i < UInt32.size) : (ofIndex i).index = i :=
  UInt32.toNat_ofNat_of_lt h

instance : Ord NodeId := ⟨fun a b => compare a.word b.word⟩

/-- A node by its number, as it is shown in messages. -/
def text (n : NodeId) : String :=
  "#" ++ String.ofList (Nat.toDigits 10 n.index)

/-- The JSON form of an id, its number. -/
def toJson (n : NodeId) : Json := .int n.index

/-- Reads an id from its number. -/
def read : Json.Reader NodeId := fun o =>
  (fun n => ofIndex n.toNat) <$> Json.readInt 0 0xFFFFFFFF "u32" o

end NodeId

end MarkupForest
