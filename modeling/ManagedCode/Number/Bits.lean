import ManagedCode.Text.Quoted

/-!
# Floats by their bits

A float is written as its bits in hexadecimal, the sign first, so that every float
but a NaN is read back as it was.  All NaNs are written alike.
-/

namespace ManagedCode.Bits

/-- The value of a hexadecimal digit. -/
def hexValue (c : Char) : Nat :=
  if c.isDigit then c.toNat - 48 else c.toNat - 87

/-- The number that hexadecimal digits in lower case stand for. -/
def readHex (s : String) : Nat :=
  s.toList.foldl (fun n c => 16 * n + hexValue c) 0

/-- The bits of a double in hexadecimal digits. -/
def ofDouble (x : Float) : String :=
  if x.isNaN then "nan" else Text.hexPadded 16 x.toBits.toNat

/-- The bits of a single in hexadecimal digits. -/
def ofSingle (x : Float32) : String :=
  if x.isNaN then "nan" else Text.hexPadded 8 x.toBits.toNat

/-- The double with the given bits. -/
def toDouble (s : String) : Float :=
  if s == "nan" then 0.0 / 0.0 else Float.ofBits (UInt64.ofNat (readHex s))

/-- The single with the given bits. -/
def toSingle (s : String) : Float32 :=
  if s == "nan" then 0.0 / 0.0 else Float32.ofBits (UInt32.ofNat (readHex s))

end ManagedCode.Bits
