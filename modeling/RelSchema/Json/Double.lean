import RelSchema.Decimal.Shortest
import RelSchema.Json.Basic

/-!
# Numbers as machine numbers

A number that is an integer in the range of 64 bits, with or without a sign, is kept exactly. Every
other number is kept to double precision: its leading digits, as many as 64 bits hold, are scaled by
a power of ten in one rounded operation. A double is written with the fewest digits that tell it
apart, positionally while that takes at most 16 digits before the point and four zeros behind it.
-/

namespace RelSchema

namespace Json

/-- Appends digits to a number while it fits in 64 bits; returns how many were appended. -/
def appendDigits : Nat → List Nat → Nat × Nat
  | n, [] => (n, 0)
  | n, d :: rest =>
    if n * 10 + d < Nat.pow 2 64 then
      let (m, count) := appendDigits (n * 10 + d) rest
      (m, count + 1)
    else (n, 0)

/-- The double next to `10 ^ e`. -/
def powerOfTen (e : Nat) : Float := Float.ofScientific 1 false e

/-- Scales by a power of ten, in steps that fit the range of doubles; nothing when the result is
too large for a double. Three steps reach zero from any start. -/
def scale (f : Float) (e : Int) : Nat → Option Float
  | 0 => some 0
  | steps + 1 =>
    if e.natAbs ≤ 308 then
      if 0 ≤ e then
        let scaled := f * powerOfTen e.toNat
        if scaled.isInf then none else some scaled
      else some (f / powerOfTen e.natAbs)
    else if f == 0 then some f
    else if 0 ≤ e then none
    else scale (f / powerOfTen 308) (e + 308) steps

/-- The magnitude of a number to double precision; nothing when it is too large. -/
def Number.magnitude? (n : Number) : Option Float :=
  let digits := (toString n.whole).toList.map fun c => c.toNat - '0'.toNat
  let (leading, kept) := appendDigits 0 digits
  let (leading, more) := appendDigits leading n.fraction
  let exponent := ((digits.length - kept : Nat) : Int) - more + n.exponent.getD 0
  scale leading.toUInt64.toFloat exponent 4

/-- The digits of a positive number, without those that are zero at the end. -/
def significantDigits (n : Nat) : List Nat :=
  (((toString n).toList.map fun c => c.toNat - '0'.toNat).reverse.dropWhile (· == 0)).reverse

/-- How a positive decimal is written: the point goes behind the digit at `place`. -/
def layout (negative : Bool) (digits : List Nat) (place : Int) : Number :=
  let number : List Nat → Nat := List.foldl (fun n d => n * 10 + d) 0
  if (digits.length : Int) ≤ place ∧ place ≤ 16 then
    { negative, whole := number digits * Nat.pow 10 (place - digits.length).toNat, fraction := [0] }
  else if 0 < place ∧ place ≤ 16 then
    { negative, whole := number (digits.take place.toNat), fraction := digits.drop place.toNat }
  else if -5 < place ∧ place ≤ 0 then
    { negative, whole := 0, fraction := List.replicate (-place).toNat 0 ++ digits }
  else
    { negative
      whole := number (digits.take 1)
      fraction := digits.drop 1
      exponent := some (place - 1) }

/-- The written form of a finite double without its sign. -/
def ofDouble (negative : Bool) (f : Float) : Number :=
  let bits := f.toBits.toNat % Nat.pow 2 63
  let biased : Nat := bits / Nat.pow 2 52
  let stored : Nat := bits % Nat.pow 2 52
  if bits = 0 then { negative, whole := 0, fraction := [0] }
  else
    let interval :=
      if biased = 0 then Decimal.Interval.ofBinary stored (-1074) false
      else Decimal.Interval.ofBinary (Nat.pow 2 52 + stored) ((biased : Int) - 1075)
        (stored == 0 && decide (1 < biased))
    let shortest := interval.shortest
    let all := (toString shortest.digits).length
    layout negative (significantDigits shortest.digits) (all + shortest.exponent)

/-- The number as it is kept: exact, or to double precision. -/
def Number.kept? (n : Number) : Option Number :=
  if n.isInteger && !n.negative && decide (n.whole < Nat.pow 2 64) then some n
  else if n.isInteger && n.negative && decide (0 < n.whole) &&
    decide (n.whole ≤ Nat.pow 2 63) then some n
  else n.magnitude?.map (ofDouble n.negative)

end Json

end RelSchema
