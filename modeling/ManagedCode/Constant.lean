import ManagedCode.TypeRef

/-!
# Constants

The values that can be written into a declaration: the defaults of fields and
parameters, and the values of enumeration literals.
-/

namespace ManagedCode

/-- A value that can be written into a declaration. -/
inductive Constant where
  | null
  | bool (value : Bool)
  | i32 (value : Int32)
  | i64 (value : Int64)
  | f32 (value : Float32)
  | f64 (value : Float)
  | str (value : String)
deriving Inhabited

namespace Constant

/-- An integer as a constant of an integral type: the 64-bit types keep it, and
every narrower type keeps its low 32 bits. -/
def integral (value : Int64) : Primitive → Constant
  | .i64 => i64 value
  | .u64 => i64 value
  | _ => i32 value.toInt32

/-- The integer that an integral or boolean constant stands for. -/
def asI64? : Constant → Option Int64
  | i32 v => some v.toInt64
  | i64 v => some v
  | bool b => some (if b then 1 else 0)
  | _ => none

end Constant

end ManagedCode
