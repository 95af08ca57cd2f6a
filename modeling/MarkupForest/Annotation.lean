import MarkupForest.Text.Quoted

/-!
# Annotations

Values that are attached under typed keys. The type of value belongs to the key, so keys of one name
and different types are different keys.

A store holds values of all types side by side. Each value stands in a place, which has the name and
the type of its key, and says of what type it is. It is given as a value of the type of a key only
if it is of that type.
-/

namespace MarkupForest.Annotation

/-- The types of values that can be attached. -/
inductive ValueType where
  /-- Text. -/
  | string
  /-- A 32-bit number. -/
  | uint32
  /-- A signed 64-bit number. -/
  | int64
  /-- A truth value. -/
  | bool
  /-- A type that is defined elsewhere, by a number that no other type has. -/
  | other (id : Nat)
deriving DecidableEq, Repr

/-- The values of a type. Nothing looks into a value that is attached, so the values of a type that
is defined elsewhere are told apart by numbers. -/
def ValueType.Value : ValueType → Type
  | string => String
  | uint32 => UInt32
  | int64 => Int64
  | bool => Bool
  | other _ => Nat

/-- A key for values of one type. -/
structure Key (τ : ValueType) where
  /-- The name of the key. -/
  name : String

/-- A key as it is shown. -/
def Key.describe {τ : ValueType} (k : Key τ) : String :=
  "AnnotationKey(" ++ Text.quoted k.name ++ ")"

/-- A value under its key. -/
structure Slot where
  /-- The type of the value. -/
  type : ValueType
  /-- The name of the key. -/
  name : String
  /-- The value. -/
  value : type.Value

/-- Where a store keeps the value under a key. -/
structure Place where
  /-- The name of the key. -/
  name : String
  /-- The type of the values of the key. -/
  type : ValueType
deriving DecidableEq, Repr

/-- The place of the value under a key. -/
def Key.place {τ : ValueType} (k : Key τ) : Place := ⟨k.name, τ⟩

/-- A value of one of the types, which says of what type it is. -/
structure Dynamic where
  /-- The type. -/
  type : ValueType
  /-- The value. -/
  value : type.Value

/-- The value, if it is of the given type. -/
def Dynamic.as? (d : Dynamic) (τ : ValueType) : Option τ.Value :=
  if h : d.type = τ then some (h ▸ d.value) else none

/-- A store of values, at most one in each place. -/
structure Store where
  /-- The values with their places, in the order in which the places were first filled. -/
  values : List (Place × Dynamic) := []

namespace Store

/-- The store without values. -/
def empty : Store := {}

/-- The value under a key. -/
def get? {τ : ValueType} (s : Store) (k : Key τ) : Option τ.Value :=
  (s.values.lookup k.place).bind (·.as? τ)

/-- Puts a value in a place, instead of the value that was there. -/
def put (place : Place) (value : Dynamic) : List (Place × Dynamic) → List (Place × Dynamic)
  | [] => [(place, value)]
  | (p, v) :: rest => if p = place then (p, value) :: rest else (p, v) :: put place value rest

/-- Puts a value under a key, instead of the value that was there. -/
def insert {τ : ValueType} (s : Store) (k : Key τ) (value : τ.Value) : Store :=
  ⟨put k.place ⟨τ, value⟩ s.values⟩

/-- The number of values. -/
def size (s : Store) : Nat := s.values.length

/-- Whether there are no values. -/
def isEmpty (s : Store) : Bool := s.values.isEmpty

/-- The names of the keys of all values, as they are shown. -/
def describe (s : Store) : String :=
  "\x7b" ++ ", ".intercalate (s.values.map fun v => Text.quoted v.1.name) ++ "\x7d"

end Store

end MarkupForest.Annotation
