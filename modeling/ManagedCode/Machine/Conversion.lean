import ManagedCode.Code.Opcode
import ManagedCode.Machine.Fault
import ManagedCode.Number.Binary

/-!
# Conversions

An unchecked conversion keeps the low bits of an integer, and narrows a float to
the 64-bit integers first.  A checked conversion refuses a number whose integer
part the target type does not have.
-/

namespace ManagedCode

/-- A number that is converted: an integer as 64 bits, with whether it came from 32,
or a float. -/
inductive ConvSource where
  | integer (value : Int64) (narrow : Bool)
  | float (value : Float)

namespace ConvSource

/-- A number of the stack as what a conversion starts from. -/
def ofValue (op : String) : Value → Except Fault ConvSource
  | .i32 v => .ok (integer v.toInt64 true)
  | .i64 v => .ok (integer v false)
  | .f32 v => .ok (float v.toFloat)
  | .f64 v => .ok (float v)
  | v => .error (.typeError ("'" ++ op ++ "' cannot convert " ++ v.kindName))

/-- The number as a signed integer of 64 bits. -/
def signedBits : ConvSource → BitVec 64
  | integer v _ => v.toBitVec
  | float x => BitVec.ofInt 64 (Binary.ofFloat x).toSigned64

/-- The number as an unsigned integer of 64 bits; a narrow integer is extended by
zeros. -/
def unsignedBits : ConvSource → BitVec 64
  | integer v narrow => if narrow then (v.toBitVec.truncate 32).zeroExtend 64 else v.toBitVec
  | float x => BitVec.ofInt 64 (Binary.ofFloat x).toUnsigned64

/-- The integer part of a number, unless it is not finite. -/
def integer? : ConvSource → Option Int
  | integer v _ => some v.toInt
  | float x => (Binary.ofFloat x).truncate

end ConvSource

namespace IntTarget

/-- The least integer of a target type. -/
def low : IntTarget → Int
  | i1 => -128
  | i2 => -32768
  | i4 => -2147483648
  | i8 => -9223372036854775808
  | _ => 0

/-- The greatest integer of a target type. -/
def high : IntTarget → Int
  | i1 => 127
  | i2 => 32767
  | i4 => 2147483647
  | i8 => 9223372036854775807
  | u1 => 255
  | u2 => 65535
  | u4 => 4294967295
  | u8 => 18446744073709551615

/-- An integer of a target type in its stack form. -/
def ofInt (v : Int) : IntTarget → Value
  | i8 | u8 => .i64 (Int64.ofInt v)
  | _ => .i32 (Int32.ofInt v)

/-- An unchecked conversion. -/
def convert (s : ConvSource) : IntTarget → Value
  | i1 => .i32 (Int32.ofBitVec ((s.signedBits.truncate 8).signExtend 32))
  | i2 => .i32 (Int32.ofBitVec ((s.signedBits.truncate 16).signExtend 32))
  | i4 => .i32 (Int32.ofBitVec (s.signedBits.truncate 32))
  | i8 => .i64 (Int64.ofBitVec s.signedBits)
  | u1 => .i32 (Int32.ofBitVec ((s.signedBits.truncate 8).zeroExtend 32))
  | u2 => .i32 (Int32.ofBitVec ((s.signedBits.truncate 16).zeroExtend 32))
  | u4 => .i32 (Int32.ofBitVec (s.unsignedBits.truncate 32))
  | u8 => .i64 (Int64.ofBitVec s.unsignedBits)

/-- A checked conversion. -/
def convertChecked (op : String) (s : ConvSource) (t : IntTarget) : Except Fault Value :=
  match s.integer? with
  | some v => if t.low ≤ v ∧ v ≤ t.high then .ok (t.ofInt v) else .error (.overflow op)
  | none => .error (.overflow op)

end IntTarget

namespace ConvTarget

/-- A conversion that wraps around or rounds. -/
def convert (s : ConvSource) : ConvTarget → Value
  | int t => t.convert s
  | r4 =>
    match s with
    | .integer v _ => .f32 v.toFloat32
    | .float x => .f32 x.toFloat32
  | r8 =>
    match s with
    | .integer v _ => .f64 v.toFloat
    | .float x => .f64 x
  | rUn =>
    match s with
    | .integer .. => .f64 (UInt64.ofBitVec s.unsignedBits).toFloat
    | .float x => .f64 x

end ConvTarget

namespace Opcode

/-- Executes a conversion. -/
def convertValue (target : ConvTarget) (v : Value) : Except Fault Value := do
  let s ← ConvSource.ofValue (conv target).mnemonic v
  return target.convert s

/-- A conversion that fails unless the number fits. -/
def convertValueChecked (target : IntTarget) (v : Value) : Except Fault Value := do
  let s ← ConvSource.ofValue (convOvf target).mnemonic v
  target.convertChecked (convOvf target).mnemonic s

end Opcode

end ManagedCode
