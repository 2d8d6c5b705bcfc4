import ManagedCode.Machine.Fault
import ManagedCode.Session

/-!
# Types and members at run time

Which types a value conforms to, which method a virtual call runs, and the members
that instructions name.
-/

namespace ManagedCode

namespace Session

/-- A realized type, or the fault that there is none. -/
def typeAt (s : Session) (id : TypeId) : Except Fault RealizedType :=
  match s.realized? id with
  | some t => .ok t
  | none => .error (.unknownType id)

/-- The method that a handle names, or the fault that there is none. -/
def methodAt (s : Session) (m : MethodRef) : Except Fault RealizedMethod := do
  let t ← s.typeAt m.owner
  match t.method? m.index with
  | some method => return method
  | none => .error (.missingMember t.fullName m.display)

/-- The field that a handle names, or the fault that there is none. -/
def fieldAt (s : Session) (f : FieldRef) : Except Fault RealizedField := do
  let t ← s.typeAt f.owner
  match t.field? f.index with
  | some field => return field
  | none => .error (.missingMember t.fullName f.display)

/-- Whether a value is an instance of a type.  Null is an instance of none, and an
array of references is also an array of objects. -/
def isInstance (s : Session) (v : Value) (t : TypeRef) : Bool :=
  match t, v with
  | _, .null => false
  | .object, _ => true
  | .string, .str _ => true
  | .array element, .array r =>
    r.element == element || (element == .object && !r.element.isValueType)
  | .defined h, .object r => s.reaches r.type h.id
  | t, .boxed _ u _ => u == t
  | _, _ => false

/-- The method that a call of a declared method runs on a receiver.  An interface
method runs as the receiver's class implements it, and a virtual method as the
class fills its slot. -/
def dispatch (s : Session) (receiver : Value) (declared : RealizedMethod) :
    Except Fault RealizedMethod :=
  match receiver with
  | .null => .error .nullReference
  | .object r => do
    let owner := declared.handle.owner
    if !s.reaches r.type owner then
      .error (.invalidCast r.type.display owner.display)
    else
      let t ← s.typeAt r.type
      let declaring ← s.typeAt owner
      let target ←
        if declaring.handle.kind.isInterface then
          match t.implementation? declared.handle with
          | some m => s.methodAt m
          | none => .error (.missingMember t.fullName declared.name)
        else .ok declared
      match target.vtableSlot.bind t.vtable.method? with
      | some m => if m = target.handle then return target else s.methodAt m
      | none => return target
  | v =>
    if declared.isVirtual then
      .error (.typeError ("cannot dispatch '" ++ declared.name ++ "' on " ++ v.kindName))
    else .ok declared

end Session

end ManagedCode
