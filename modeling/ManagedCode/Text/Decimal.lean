import ManagedCode.Number.Binary

/-!
# Shortest decimals

A floating point number is written with the fewest decimal digits that read back
as the same number, never with an exponent.  Of two candidates with that many
digits the nearer is taken, and of two equally near the larger.

The numbers that read back as `m · 2 ^ e` are those between the midpoints to its
two neighbours, ends included exactly when `m` is even.  `Interval` holds the
number and the midpoints over one denominator.
-/

namespace ManagedCode.Decimal

/-- A number with the bounds of what reads back as it, in units of
`1 / denominator`. -/
structure Interval where
  low : Nat
  value : Nat
  high : Nat
  closed : Bool
  denominator : Nat
deriving Repr

/-- The interval of `m · 2 ^ e` for a format whose normal numbers have
`fractionBits` bits after the leading one.  At a power of two, the neighbour
below is half as far as the one above, except at the smallest exponent. -/
def Interval.around (fractionBits : Nat) (leastExponent : Int) (m : Nat) (e : Int) : Interval :=
  let below := if m = Nat.pow 2 fractionBits ∧ leastExponent < e then 1 else 2
  let scale := Nat.pow 2 (e - 2).toNat
  { low := (4 * m - below) * scale
    value := 4 * m * scale
    high := (4 * m + 2) * scale
    closed := m % 2 = 0
    denominator := Nat.pow 2 (2 - e).toNat }

/-- Whether a number rounds to the float. -/
def Interval.contains (i : Interval) (n : Nat) : Bool :=
  if i.closed then decide (i.low ≤ n ∧ n ≤ i.high) else decide (i.low < n ∧ n < i.high)

/-- The multiple of `10 ^ k` inside the interval that is nearest to the number,
as a factor of `10 ^ k`. -/
def Interval.onGrid (i : Interval) (k : Int) : Option Nat :=
  let unit := Nat.pow 10 k.toNat * i.denominator
  let stretch := Nat.pow 10 (-k).toNat
  let j : Interval :=
    { i with low := i.low * stretch, value := i.value * stretch, high := i.high * stretch }
  let floor := j.value / unit
  let below := j.contains (floor * unit)
  let above := j.contains ((floor + 1) * unit)
  if below && above then
    if 2 * (j.value - floor * unit) < unit then some floor else some (floor + 1)
  else if below then some floor
  else if above then some (floor + 1)
  else none

/-- Tries ever finer grids, from `10 ^ k` down. -/
def Interval.shortest (i : Interval) : Nat → Int → Nat × Int
  | 0, k => (i.value, k)
  | fuel + 1, k =>
    match i.onGrid k with
    | some digits => (digits, k)
    | none => i.shortest fuel (k - 1)

/-- The exponent of a power of ten just above `m · 2 ^ e`, where the search
starts: the logarithm of two to the base ten is 0.30103. -/
def leadingPower (m : Nat) (e : Int) : Int :=
  ((Nat.log2 m : Int) + e + 1) * 30103 / 100000 + 1

/-- Writes `digits · 10 ^ k` without an exponent. -/
def positional (digits : Nat) (k : Int) : String :=
  if 0 ≤ k then toString (digits * Nat.pow 10 k.toNat)
  else
    let places := (-k).toNat
    let text := (toString digits).toList
    let padded := List.replicate (places + 1 - text.length) '0' ++ text
    let whole := padded.take (padded.length - places)
    let fraction := padded.drop (padded.length - places)
    String.ofList (whole ++ '.' :: fraction)

/-- Writes a number of a format with the given fraction width and least
exponent. -/
def write (fractionBits : Nat) (leastExponent : Int) : Binary → String
  | .nan => "NaN"
  | .infinite negative => if negative then "-inf" else "inf"
  | .finite negative m e =>
    let sign := if negative then "-" else ""
    if m = 0 then sign ++ "0"
    else
      let (digits, k) := (Interval.around fractionBits leastExponent m e).shortest 400
        (leadingPower m e)
      sign ++ positional digits k

/-- A double in decimal digits, as few as tell it from every other. -/
def ofFloat (x : Float) : String :=
  write 52 (-1074) (Binary.ofFloat x)

/-- A single in decimal digits, as few as tell it from every other. -/
def ofFloat32 (x : Float32) : String :=
  write 23 (-149) (Binary.ofFloat32 x)

end ManagedCode.Decimal
