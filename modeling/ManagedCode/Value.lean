import ManagedCode.Constant
import ManagedCode.Text.Decimal
import ManagedCode.Text.Quoted

/-!
# Values

The values that programs compute with and that hosts pass in and out.  Objects,
arrays and boxes are known by their address; a reference also carries what never
changes about the thing it points to, the class of an object and the element type
of an array.

On the evaluation stack a boolean has the form of a 32-bit integer:
`Value.toStack` takes a value there, and `Value.coerceTo` takes it back to the
form of a type.
-/

namespace ManagedCode

/-- A reference to an object: its place on the heap and the type that it was made with. -/
structure ObjectRef where
  address : Nat
  type : TypeId
deriving DecidableEq, Repr, Inhabited

/-- A reference to an array: its place on the heap and the type of its items. -/
structure ArrayRef where
  address : Nat
  element : TypeRef
deriving DecidableEq, Repr, Inhabited

/-- What variables, fields and the stack hold. -/
inductive Value where
  | null
  | bool (value : Bool)
  | i32 (value : Int32)
  | i64 (value : Int64)
  | f32 (value : Float32)
  | f64 (value : Float)
  | str (value : String)
  | object (ref : ObjectRef)
  | array (ref : ArrayRef)
  | boxed (address : Nat) (type : TypeRef) (content : Value)
deriving Inhabited

namespace Value

/-- The value of a constant. -/
def ofConstant : Constant → Value
  | .null => null
  | .bool b => bool b
  | .i32 v => i32 v
  | .i64 v => i64 v
  | .f32 v => f32 v
  | .f64 v => f64 v
  | .str s => str s

/-- The constant that a value is, if it refers to nothing on the heap. -/
def toConstant? : Value → Option Constant
  | null => some .null
  | bool b => some (.bool b)
  | i32 v => some (.i32 v)
  | i64 v => some (.i64 v)
  | f32 v => some (.f32 v)
  | f64 v => some (.f64 v)
  | str s => some (.str s)
  | object _ | array _ | boxed .. => none

/-- The value that a slot of a type starts with. -/
def initial (t : TypeRef) : Value :=
  match t.form with
  | .bool => bool false
  | .signed .w64 | .unsigned .w64 => i64 0
  | .char | .signed _ | .unsigned _ => i32 0
  | .float .single => f32 0.0
  | .float .double => f64 0.0
  | .void | .reference | .generic => null

/-- Whether a value is the null reference. -/
def isNull : Value → Bool
  | null => true
  | _ => false

/-- The integer of 32 bits that a value is. -/
def asI32? : Value → Option Int32
  | i32 v => some v
  | bool b => some (if b then 1 else 0)
  | _ => none

/-- The integer of 64 bits that a value is. -/
def asI64? : Value → Option Int64
  | i64 v => some v
  | i32 v => some v.toInt64
  | bool b => some (if b then 1 else 0)
  | _ => none

/-- The number in double precision that a value is. -/
def asF64? : Value → Option Float
  | f64 v => some v
  | f32 v => some v.toFloat
  | _ => none

/-- The truth value that a value is. -/
def asBool? : Value → Option Bool
  | bool b => some b
  | i32 v => some (v != 0)
  | i64 v => some (v != 0)
  | _ => none

/-- The string that a value is. -/
def asString? : Value → Option String
  | str s => some s
  | _ => none

/-- The object that a value refers to. -/
def asObject? : Value → Option ObjectRef
  | object r => some r
  | _ => none

/-- The array that a value refers to. -/
def asArray? : Value → Option ArrayRef
  | array r => some r
  | _ => none

/-- The form of a value on the evaluation stack. -/
def toStack : Value → Value
  | bool b => i32 (if b then 1 else 0)
  | v => v

/-- The form of a value in a slot of a type: an integer becomes a boolean, and a
narrow number a wide one.  Every other value stays. -/
def coerceTo (v : Value) (t : TypeRef) : Value :=
  match t.form, v with
  | .bool, i32 x => bool (x != 0)
  | .bool, i64 x => bool (x != 0)
  | .signed .w64, i32 x => i64 x.toInt64
  | .unsigned .w64, i32 x => i64 x.toInt64
  | .float .double, f32 x => f64 x.toFloat
  | _, v => v

/-- What an error calls a value. -/
def kindName : Value → String
  | null => "null"
  | bool _ => "bool"
  | i32 _ => "i32"
  | i64 _ => "i64"
  | f32 _ => "f32"
  | f64 _ => "f64"
  | str _ => "string"
  | object _ => "object"
  | array _ => "array"
  | boxed .. => "boxed"

/-- Whether two values are the same: numbers of one width by their value,
references by what they point to, and boxes also by type and content. -/
def same : Value → Value → Bool
  | null, null => true
  | bool a, bool b => a == b
  | i32 a, i32 b => a == b
  | i64 a, i64 b => a == b
  | f32 a, f32 b => a == b
  | f64 a, f64 b => a == b
  | str a, str b => a == b
  | object a, object b => a.address == b.address
  | array a, array b => a.address == b.address
  | boxed a s v, boxed b t w => a == b || (s == t && v.same w)
  | _, _ => false

end Value

end ManagedCode
