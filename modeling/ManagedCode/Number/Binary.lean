/-!
# Binary floating point numbers, exactly

A finite floating point number is `m · 2 ^ e` for a natural number `m` and an
integer `e`, up to its sign.  This module reads the two widths into that form,
and computes on it what has to be exact: the integer part of a number, the
remainder of two numbers, and the narrowing of a number to an integer range.
-/

namespace ManagedCode

/-- What the bits of a floating point number stand for. -/
inductive Binary where
  | nan
  | infinite (negative : Bool)
  | finite (negative : Bool) (mantissa : Nat) (exponent : Int)
deriving DecidableEq, Repr, Inhabited

namespace Binary

/-- Reads a sign bit, an exponent field and a fraction field of the given width.  The exponent field
has all its bits set in an infinity or a NaN, and is zero in a number without the implicit leading
bit. -/
def ofFields (fractionBits exponentBits bits : Nat) : Binary :=
  let fractions := Nat.pow 2 fractionBits
  let fields := Nat.pow 2 exponentBits
  let fraction := bits % fractions
  let field := bits / fractions % fields
  let negative := bits / (fractions * fields) % 2 == 1
  let bias := fields / 2 - 1 + fractionBits
  if field + 1 = fields then
    if fraction = 0 then infinite negative else nan
  else if field = 0 then
    finite negative fraction (1 - (bias : Int))
  else
    finite negative (fractions + fraction) (field - (bias : Int))

/-- A double as an exact number. -/
def ofFloat (x : Float) : Binary :=
  ofFields 52 11 x.toBits.toNat

/-- A single as an exact number. -/
def ofFloat32 (x : Float32) : Binary :=
  ofFields 23 8 x.toBits.toNat

/-- The integer part of `m · 2 ^ e`. -/
def scale (m : Nat) (e : Int) : Nat :=
  if 0 ≤ e then m * Nat.pow 2 e.toNat else m / Nat.pow 2 (-e).toNat

/-- The number as an integer, without its fractional part. -/
def truncate : Binary → Option Int
  | finite negative m e =>
    let size := scale m e
    some (if negative then -(size : Int) else size)
  | _ => none

/-- The integer of the range from `low` to `high` that a number is narrowed to:
the integer part where the range has it, else the nearer end.  A NaN is narrowed
to zero. -/
def clamp (low high : Int) : Binary → Int
  | nan => 0
  | infinite negative => if negative then low else high
  | x => max low (min high (x.truncate.getD 0))

/-- The 64-bit integer with a sign that a number is narrowed to. -/
def toSigned64 (x : Binary) : Int :=
  x.clamp (-9223372036854775808) 9223372036854775807

/-- The 64-bit integer without a sign that a number is narrowed to. -/
def toUnsigned64 (x : Binary) : Int :=
  x.clamp 0 18446744073709551615

/-- The bits of `m · 2 ^ e`, a number that the 64-bit format has. -/
def doubleBits (negative : Bool) (m : Nat) (e : Int) : Nat :=
  let sign := if negative then 0x8000000000000000 else 0
  let fractions := 0x10000000000000
  if m = 0 then sign
  else
    let up := min (52 - (Nat.log2 m : Int)) (e + 1074)
    let fraction := scale m up
    let field := e - up + 1075
    if fraction < fractions then sign + fraction
    else sign + field.toNat * fractions + fraction % fractions

end Binary

/-- The remainder of a division that goes toward zero.  It has the sign of the
dividend and is exact, since it is a multiple of the smaller of the two units. -/
def floatRemainder (x y : Float) : Float :=
  match Binary.ofFloat x, Binary.ofFloat y with
  | .finite negative m e, .finite _ n f =>
    if n = 0 then 0.0 / 0.0
    else
      let unit := min e f
      let a := Binary.scale m (e - unit)
      let b := Binary.scale n (f - unit)
      Float.ofBits (UInt64.ofNat (Binary.doubleBits negative (a % b) unit))
  | .finite .., .infinite _ => x
  | _, _ => 0.0 / 0.0

end ManagedCode
