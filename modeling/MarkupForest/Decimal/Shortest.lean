/-!
# Shortest decimal digits of a double

The fewest significant digits that read back as a given double, and of the candidates with that many
digits the one nearest to it. A positive double is a significand times a power of two, and it stands
for an interval of reals that round to it; candidates are the two neighbours of the value on each
decimal grid, from the coarsest grid on.
-/

namespace MarkupForest.Decimal

/-- A positive double `significand * 2 ^ exponent`. -/
structure Binary where
  /-- The significand, below `2 ^ 53`. -/
  significand : Nat
  /-- The exponent of two. -/
  exponent : Int

/-- The bit above the stored bits of a significand. -/
def leadingBit : Nat := 0x10000000000000

/-- The magnitude of a finite double that is not zero, by its bit pattern. -/
def Binary.ofBits (bits : Nat) : Binary :=
  let fraction := bits % leadingBit
  let exponent := bits / leadingBit % 0x800
  if exponent = 0 then ⟨fraction, -1074⟩
  else ⟨leadingBit + fraction, Int.ofNat exponent - 1075⟩

/-- The value and the ends of its rounding interval as multiples of one unit, with that unit a ratio
of naturals. -/
structure Interval where
  /-- The lower end. -/
  low : Nat
  /-- The value. -/
  mid : Nat
  /-- The upper end. -/
  high : Nat
  /-- What one unit is divided by. -/
  denominator : Nat
  /-- Whether the ends belong to the interval. -/
  closed : Bool

/-- The reals that round to a double: half a step to each side, a quarter step downwards from a
power of two, the ends included if the significand is even. -/
def Binary.interval (b : Binary) : Interval :=
  let numerator := if 0 ≤ b.exponent then Nat.pow 2 b.exponent.natAbs else 1
  let denominator := if 0 ≤ b.exponent then 4 else 4 * Nat.pow 2 b.exponent.natAbs
  let below := if b.significand = leadingBit ∧ -1074 < b.exponent then 1 else 2
  { low := (4 * b.significand - below) * numerator
    mid := 4 * b.significand * numerator
    high := (4 * b.significand + 2) * numerator
    denominator := denominator
    closed := b.significand % 2 = 0 }

/-- A decimal `digits * 10 ^ exponent`. -/
structure Digits where
  /-- The significant digits as a number. -/
  digits : Nat
  /-- The exponent of ten. -/
  exponent : Int

/-- `10 ^ e` as a numerator and a denominator. -/
def ratioOfTen (e : Int) : Nat × Nat :=
  if 0 ≤ e then (Nat.pow 10 e.natAbs, 1) else (1, Nat.pow 10 e.natAbs)

/-- The nearest multiple of `10 ^ e` inside the interval, if one of the value's two neighbours lies
in it. Of two that are equally near the even one is taken. -/
def Interval.pick (i : Interval) (e : Int) : Option Digits :=
  let (up, down) := ratioOfTen e
  -- The grid's step is `up / down`; all is brought over the common denominator.
  let step := up * i.denominator
  let floor := i.mid * down / step
  let inside (d : Nat) : Bool :=
    let x := d * step
    if i.closed then i.low * down ≤ x && x ≤ i.high * down
    else i.low * down < x && x < i.high * down
  let distance (d : Nat) : Nat := (d * step - i.mid * down) + (i.mid * down - d * step)
  let ceiling := floor + 1
  match inside floor && floor != 0, inside ceiling with
  | true, true =>
    if distance floor < distance ceiling then some ⟨floor, e⟩
    else if distance ceiling < distance floor then some ⟨ceiling, e⟩
    else some ⟨if floor % 2 = 0 then floor else ceiling, e⟩
  | true, false => some ⟨floor, e⟩
  | false, true => some ⟨ceiling, e⟩
  | false, false => none

/-- The exponent of ten of the value's leading digit. -/
def Interval.magnitude (i : Interval) : Int :=
  if i.denominator ≤ i.mid then ((Nat.toDigits 10 (i.mid / i.denominator)).length : Int) - 1
  else -((Nat.toDigits 10 ((i.denominator - 1) / i.mid)).length : Int)

/-- Drops the zeros at the end of the digits, at most `n` of them. -/
def Digits.trim (d : Digits) : Nat → Digits
  | 0 => d
  | n + 1 => if d.digits % 10 = 0 then trim ⟨d.digits / 10, d.exponent + 1⟩ n else d

/-- The shortest decimal that reads back as a finite double other than zero, without its sign. -/
def shortest (x : Float) : Digits :=
  let i := (Binary.ofBits x.toBits.toNat).interval
  let magnitude := i.magnitude
  let grids := (List.range 18).map fun n => magnitude + 1 - Int.ofNat n
  match grids.findSome? i.pick with
  | some d => d.trim 18
  | none => ⟨0, 0⟩

/-- How a decimal is laid out as text. -/
structure Layout where
  /-- The least exponent of the leading digit that is written with a point and no exponent. -/
  least : Int
  /-- The greatest such exponent. -/
  greatest : Int
  /-- The sign of an exponent above zero. -/
  plus : String

/-- The digits of a number as text. -/
def text (n : Nat) : String :=
  String.ofList (Nat.toDigits 10 n)

/-- The text of a decimal. A number written with a point has a digit on both sides of it. -/
def Layout.write (l : Layout) (d : Digits) : String :=
  let ds := text d.digits
  let lead := d.exponent + ds.length - 1
  if l.least ≤ lead ∧ lead ≤ l.greatest then
    if 0 ≤ d.exponent then ds ++ "".pushn '0' d.exponent.natAbs ++ ".0"
    else if lead < 0 then "0." ++ "".pushn '0' (lead.natAbs - 1) ++ ds
    else String.ofList (ds.toList.take (lead.natAbs + 1)) ++ "."
      ++ String.ofList (ds.toList.drop (lead.natAbs + 1))
  else
    let fraction := String.ofList (ds.toList.drop 1)
    String.ofList (ds.toList.take 1) ++ (if fraction.isEmpty then "" else "." ++ fraction) ++ "e"
      ++ (if lead < 0 then "-" else l.plus) ++ text lead.natAbs

end MarkupForest.Decimal
