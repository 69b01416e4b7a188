/-!
# The shortest decimal of a binary fraction

A binary floating-point number `m · 2^q` stands for all reals that round to it. Among the decimals
in that interval `shortest` finds one with the fewest digits, and of those the nearest. All
arithmetic is exact: a bound is a natural number over a common denominator.

If a decimal grid has a point in the interval, then one of the two neighbours of the number itself
on that grid is in it, so two candidates suffice for each number of digits.
-/

namespace RelSchema.Decimal

/-- The decimal `digits · 10 ^ exponent`. -/
structure Scaled where
  digits : Nat
  exponent : Int
deriving DecidableEq, Repr

/-- An interval of reals around a value, each as a numerator over `denominator`. -/
structure Interval where
  value : Nat
  low : Nat
  high : Nat
  denominator : Nat
  /-- Whether the two ends belong to the interval. -/
  closed : Bool

/-- The reals that round to `m · 2^q`. At a power of two the neighbour below is half as far away as
the one above, unless it is the smallest exponent. -/
def Interval.ofBinary (m : Nat) (q : Int) (narrowBelow : Bool) : Interval :=
  let unit := Nat.pow 2 q.toNat
  { value := 4 * m * unit
    low := 4 * m * unit - (if narrowBelow then unit else 2 * unit)
    high := 4 * m * unit + 2 * unit
    denominator := 4 * Nat.pow 2 (-q).toNat
    closed := m % 2 == 0 }

/-- The numerator of `10 ^ e` times a number, up to the common factor `tens e`. -/
def timesTen (n : Nat) (e : Int) : Nat := n * Nat.pow 10 e.toNat

namespace Interval

/-- Whether `c · 10^e` belongs to the interval. -/
def holds (i : Interval) (c : Nat) (e : Int) : Bool :=
  let point := timesTen (c * i.denominator) e
  let low := timesTen i.low (-e)
  let high := timesTen i.high (-e)
  if i.closed then decide (low ≤ point) && decide (point ≤ high)
  else decide (low < point) && decide (point < high)

/-- The distance of `c · 10^e` from the value, in units that depend on `e` only. -/
def distance (i : Interval) (c : Nat) (e : Int) : Nat :=
  let point := timesTen (c * i.denominator) e
  let value := timesTen i.value (-e)
  if point ≤ value then value - point else point - value

/-- The least `k` with value below `10 ^ k`. -/
def magnitude (i : Interval) : Int :=
  if i.denominator ≤ i.value then ((toString (i.value / i.denominator)).length : Int)
  else
    let zeros := (toString (i.denominator / i.value)).length
    if i.denominator ≤ i.value * Nat.pow 10 (zeros - 1) then 2 - (zeros : Int) else 1 - (zeros : Int)

/-- The better neighbour of the value on the grid `10^e`, if one is in the interval: the nearer one,
of two equally near ones the even one. -/
def onGrid? (i : Interval) (e : Int) : Option Nat :=
  let c := timesTen i.value (-e) / timesTen i.denominator e
  match i.holds c e, i.holds (c + 1) e with
  | false, false => none
  | true, false => some c
  | false, true => some (c + 1)
  | true, true =>
    if i.distance c e < i.distance (c + 1) e then some c
    else if i.distance (c + 1) e < i.distance c e then some (c + 1)
    else some (if c % 2 = 0 then c else c + 1)

/-- The first hit on grids of one digit more each; seventeen digits always give one. -/
def search (i : Interval) (magnitude : Int) : Nat → Nat → Scaled
  | 0, digits => ⟨timesTen i.value (digits - magnitude) / timesTen i.denominator (magnitude - digits),
      magnitude - digits⟩
  | tries + 1, digits =>
    match i.onGrid? (magnitude - digits) with
    | some c => ⟨c, magnitude - digits⟩
    | none => search i magnitude tries (digits + 1)

/-- The shortest decimal in the interval. -/
def shortest (i : Interval) : Scaled := i.search i.magnitude 17 1

end Interval

end RelSchema.Decimal
