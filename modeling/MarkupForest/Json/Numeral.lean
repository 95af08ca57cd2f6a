/-!
# Numerals

Numbers as JSON writes them and the values they stand for. Whole numbers within 64 bits are exact;
every other number, and minus zero, is a double. A double is the significand, cut to what fits in 64
bits, scaled by a power of ten.
-/

namespace MarkupForest.Json

/-- The parts of a written number, each a list of decimal digits. -/
structure Numeral where
  /-- Whether a minus sign stands in front. -/
  negative : Bool
  /-- The digits before the point. -/
  whole : List Char
  /-- The digits after the point, none if there is no point. -/
  fraction : List Char
  /-- The digits of the exponent, if there is one, and whether it is negative. -/
  exponent : Option (Bool × List Char)

/-- What a numeral stands for. -/
inductive Number where
  /-- A whole number within 64 bits. -/
  | int (n : Int)
  /-- A double. -/
  | float (x : Float)

/-- The value of a decimal digit. -/
def digitValue (c : Char) : Nat :=
  c.toNat - '0'.toNat

/-- A significand and the exponent of ten that goes with it. -/
structure Scaled where
  /-- The digits read so far, as a number below `2 ^ 64`. -/
  significand : Nat
  /-- The exponent of ten. -/
  exponent : Int

/-- Appends digits before the point. From the first digit that would exceed 64 bits on, a digit only
raises the exponent. -/
def Scaled.appendWhole (s : Scaled) : List Char → Scaled
  | [] => s
  | c :: cs =>
    let next := s.significand * 10 + digitValue c
    if next < UInt64.size then appendWhole { s with significand := next } cs
    else { s with exponent := s.exponent + (c :: cs).length }

/-- Appends digits after the point. From the first digit that would exceed 64 bits on, digits are
left out. -/
def Scaled.appendFraction (s : Scaled) : List Char → Scaled
  | [] => s
  | c :: cs =>
    let next := s.significand * 10 + digitValue c
    if next < UInt64.size then appendFraction ⟨next, s.exponent - 1⟩ cs
    else s

/-- The power of ten `10 ^ n` as a double, for `n ≤ 308`. -/
def powerOfTen (n : Nat) : Float :=
  Float.ofScientific 1 false n

/-- `x * 10 ^ e` by one multiplication or division, after divisions by `10 ^ 308` where `e` is far
below zero. There is no result where it would be infinite. -/
def scale (x : Float) (e : Int) : Option Float :=
  if e.natAbs ≤ 308 then
    if 0 ≤ e then
      let y := x * powerOfTen e.natAbs
      if y.isInf then none else some y
    else some (x / powerOfTen e.natAbs)
  else if x == 0 then some x
  else if 0 ≤ e then none
  else scale (x / powerOfTen 308) (e + 308)
termination_by e.natAbs
decreasing_by omega

/-- The double for a significand and an exponent written with it. An exponent beyond 32 bits leaves
no room for anything but zero. -/
def Scaled.toFloat (s : Scaled) (written : Option (Bool × List Char)) : Option Float :=
  let x := (UInt64.ofNat s.significand).toFloat
  match written with
  | none => scale x s.exponent
  | some (negative, digits) =>
    let e := digits.foldl (fun n c => n * 10 + digitValue c) 0
    if e < 0x80000000 then
      scale x (if negative then s.exponent - e else s.exponent + e)
    else if s.significand == 0 || negative then some 0
    else none

/-- The value of a numeral, or nothing if it is out of range. -/
def Numeral.value (n : Numeral) : Option Number :=
  let start := Scaled.appendWhole ⟨0, 0⟩ n.whole
  let isFloat := !n.fraction.isEmpty || n.exponent.isSome || start.exponent != 0
  if !isFloat && !n.negative then some (.int start.significand)
  else if !isFloat && 0 < start.significand && start.significand ≤ 0x8000000000000000 then
    some (.int (-start.significand))
  else
    ((start.appendFraction n.fraction).toFloat n.exponent).map fun x =>
      .float (if n.negative then -x else x)

end MarkupForest.Json
