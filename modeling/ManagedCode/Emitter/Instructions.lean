import ManagedCode.Constant
import ManagedCode.Emitter.Basic

/-!
# Instructions by intent

Ways to emit what is meant rather than a particular encoding: the shortest form
that loads a constant or a slot, the default value of a type, a conversion
between two types, a box or a cast as a type needs it.
-/

namespace ManagedCode

/-- A relation to branch on. -/
inductive Comparison where
  | eq | ne | lt | le | gt | ge
deriving DecidableEq, Repr, Inhabited

namespace Comparison

/-- Every relation, in the order in which they are declared. -/
def all : List Comparison :=
  [eq, ne, lt, le, gt, ge]

/-- The name of a comparison. -/
def name : Comparison → String
  | eq => "eq"
  | ne => "ne"
  | lt => "lt"
  | le => "le"
  | gt => "gt"
  | ge => "ge"

/-- The condition that tests a relation, on integers with or without sign. -/
def condition (unsigned : Bool) : Comparison → Condition
  | eq => .equal
  | ne => .notEqual
  | lt => if unsigned then .unordered .lt else .ordered .lt
  | le => if unsigned then .unordered .le else .ordered .le
  | gt => if unsigned then .unordered .gt else .ordered .gt
  | ge => if unsigned then .unordered .ge else .ordered .ge

end Comparison

namespace Emitter

/-- An instruction with a label. -/
def emitLabel (e : Emitter) (op : Opcode) (l : Label) : Emitter :=
  e.emitWith op (.label l)

/-- An instruction with a type. -/
def emitType (e : Emitter) (op : Opcode) (t : TypeRef) : Emitter :=
  e.emitWith op (.type t)

/-- An instruction with a field. -/
def emitField (e : Emitter) (op : Opcode) (f : FieldRef) : Emitter :=
  e.emitWith op (.field f)

/-- An instruction with a method. -/
def emitMethod (e : Emitter) (op : Opcode) (m : MethodRef) : Emitter :=
  e.emitWith op (.method m)

/-- Loads an integer constant in its shortest form. -/
def loadI32 (e : Emitter) (v : Int32) : Emitter :=
  if v = -1 then e.emit .ldcI4MinusOne
  else if h : 0 ≤ v.toInt ∧ v.toInt ≤ 8 then e.emit (.ldcI4Implied ⟨v.toInt.toNat, by omega⟩)
  else if -128 ≤ v ∧ v ≤ 127 then e.emitWith (.ldcI4 .short) (.i32 v)
  else e.emitWith (.ldcI4 .long) (.i32 v)

/-- The constant of 64 bits on the stack. -/
def loadI64 (e : Emitter) (v : Int64) : Emitter :=
  e.emitWith .ldcI8 (.i64 v)

/-- A single on the stack. -/
def loadF32 (e : Emitter) (v : Float32) : Emitter :=
  e.emitWith .ldcR4 (.f32 v)

/-- A double on the stack. -/
def loadF64 (e : Emitter) (v : Float) : Emitter :=
  e.emitWith .ldcR8 (.f64 v)

/-- A string on the stack. -/
def loadString (e : Emitter) (s : String) : Emitter :=
  e.emitWith .ldstr (.str s)

/-- Loads an argument in the shortest form that holds its index. -/
def loadArg (e : Emitter) (i : UInt16) : Emitter :=
  if h : i.toNat < 4 then e.emit (.ldargImplied ⟨i.toNat, h⟩)
  else if i ≤ 255 then e.emitWith (.ldarg .short) (.arg i)
  else e.emitWith (.ldarg .long) (.arg i)

/-- The top of the stack into an argument. -/
def storeArg (e : Emitter) (i : UInt16) : Emitter :=
  if i ≤ 255 then e.emitWith (.starg .short) (.arg i)
  else e.emitWith (.starg .long) (.arg i)

/-- Loads a local in the shortest form that holds its index. -/
def loadLocal (e : Emitter) (i : UInt16) : Emitter :=
  if h : i.toNat < 4 then e.emit (.ldlocImplied ⟨i.toNat, h⟩)
  else if i ≤ 255 then e.emitWith (.ldloc .short) (.localSlot i)
  else e.emitWith (.ldloc .long) (.localSlot i)

/-- The top of the stack into a local. -/
def storeLocal (e : Emitter) (i : UInt16) : Emitter :=
  if h : i.toNat < 4 then e.emit (.stlocImplied ⟨i.toNat, h⟩)
  else if i ≤ 255 then e.emitWith (.stloc .short) (.localSlot i)
  else e.emitWith (.stloc .long) (.localSlot i)

/-- The instruction that loads a constant, by its kind. -/
def loadConstant (e : Emitter) : Constant → Emitter
  | .null => e.emit .ldnull
  | .bool b => e.loadI32 (if b then 1 else 0)
  | .i32 v => e.loadI32 v
  | .i64 v => e.loadI64 v
  | .f32 v => e.loadF32 v
  | .f64 v => e.loadF64 v
  | .str s => e.loadString s

/-- Loads the default value of a type.  The default of a generic parameter is
that of the type it stands for, which a local of that type starts with. -/
def loadDefault (e : Emitter) (t : TypeRef) : Except EmitError Emitter :=
  match t.form with
  | .void => .error (.unsupportedConversion t "void has no default value")
  | .bool | .char => .ok (e.loadI32 0)
  | .signed .w64 | .unsigned .w64 => .ok (e.loadI64 0)
  | .signed _ | .unsigned _ => .ok (e.loadI32 0)
  | .float .single => .ok (e.loadF32 0.0)
  | .float .double => .ok (e.loadF64 0.0)
  | .reference => .ok (e.emit .ldnull)
  | .generic =>
    let (slot, e) := e.declareLocal t
    .ok (e.loadLocal slot.index)

end Emitter

namespace ValueForm

/-- The integer type that values of a numeric form convert to. -/
def intTarget? : ValueForm → Option IntTarget
  | signed .w8 => some .i1
  | signed .w16 => some .i2
  | signed .w32 => some .i4
  | signed .w64 => some .i8
  | unsigned .w8 => some .u1
  | unsigned .w16 => some .u2
  | unsigned .w32 => some .u4
  | unsigned .w64 => some .u8
  | char => some .u2
  | _ => none

end ValueForm

namespace Emitter

/-- Converts the top of the stack to a numeric type. -/
def convertTo (e : Emitter) (t : TypeRef) : Except EmitError Emitter :=
  match t.form.intTarget?, t.form with
  | some target, _ => .ok (e.emit (.conv (.int target)))
  | none, .float .single => .ok (e.emit (.conv .r4))
  | none, .float .double => .ok (e.emit (.conv .r8))
  | none, .bool => .error (.unsupportedConversion t "no numeric conversion produces a bool")
  | none, _ => .error (.unsupportedConversion t "conversions apply to numeric types only")

/-- Converts the top of the stack to a numeric type; an integer that the type
does not have is an overflow when the instruction runs. -/
def convertToChecked (e : Emitter) (t : TypeRef) : Except EmitError Emitter :=
  match t.form.intTarget?, t.form with
  | some target, _ => .ok (e.emit (.convOvf target))
  | none, .float _ => e.convertTo t
  | none, _ => .error (.unsupportedConversion t "checked conversions apply to numeric types only")

/-- Converts between two types.  An unsigned integer becomes a float by its
unsigned value, and a type of the same form needs none. -/
def convert (e : Emitter) (source target : TypeRef) : Except EmitError Emitter :=
  match source.form, target.form with
  | .unsigned _, .float _ => (e.emit (.conv .rUn)).convertTo target
  | a, b => if a = b ∧ source.isValueType then .ok e else e.convertTo target

/-- Boxes the top of the stack if its type may be a value type. -/
def boxAs (e : Emitter) (t : TypeRef) : Emitter :=
  if t.isValueType || t.isGeneric then e.emitType .box t else e

/-- Takes a reference back to a type: by unboxing, by a cast, or as it is. -/
def unboxAs (e : Emitter) (t : TypeRef) : Emitter :=
  if t = .object then e
  else if t.isValueType || t.isGeneric then e.emitType .unboxAny t
  else e.emitType .castclass t

/-- A branch on the order of the two values on top. -/
def branchIf (e : Emitter) (unsigned : Bool) (c : Comparison) (l : Label) : Emitter :=
  e.emitLabel (.branch (.compare (c.condition unsigned)) .long) l

/-- A call, by the type of the receiver or not. -/
def callMethod (e : Emitter) (m : MethodRef) (dispatched : Bool) : Emitter :=
  e.emitMethod (if dispatched then .callvirt else .call) m

/-- A call of a method with type arguments. -/
def callGeneric (e : Emitter) (m : MethodRef) (typeArgs : List TypeRef) : Emitter :=
  e.emitWith .call (.genericMethod m typeArgs)

/-- Constructs an exception and throws it. -/
def throwFrom (e : Emitter) (constructor : MethodRef) : Emitter :=
  (e.emitMethod .newobj constructor).emit .throw

end Emitter

end ManagedCode
