import ManagedCode.Heap
import ManagedCode.Machine.Operators
import ManagedCode.Machine.Conversion
import ManagedCode.Machine.Handlers

/-!
# Executing one instruction

What an instruction does to its own frame and the heap.  An instruction that needs
more than that, to call a method, to return, to raise an exception or to use the
static side of a type, answers with a request to the machine.

There is one rule for each family of instructions.
-/

namespace ManagedCode

/-- What an instruction asks of the machine. -/
inductive Request where
  | proceed (frame : Frame)
  | finish (value : Value)
  | raise (frame : Frame) (exception : Value)
  | invoke (frame : Frame) (callee : RealizedMethod) (args : List Value) (typeArgs : List TypeRef)
      (resume : Resume)
  | prepare (frame : Frame) (owner : TypeId) (rest : Deferred)
deriving Inhabited

namespace Instruction

/-- The fault of an operand of the wrong kind. -/
def malformed (i : Instruction) : Fault :=
  .runtimeError ("malformed operand for '" ++ i.opcode.mnemonic ++ "'")

/-- The argument that an instruction names. -/
def argIndex (i : Instruction) : Except Fault Nat :=
  match i.operand with
  | .arg n => .ok n.toNat
  | _ => .error i.malformed

/-- The local that an instruction names. -/
def localIndex (i : Instruction) : Except Fault Nat :=
  match i.operand with
  | .localSlot n => .ok n.toNat
  | _ => .error i.malformed

/-- The label that an instruction names. -/
def label (i : Instruction) : Except Fault Label :=
  match i.operand with
  | .label l => .ok l
  | _ => .error i.malformed

/-- The field that an instruction names. -/
def fieldRef (i : Instruction) : Except Fault FieldRef :=
  match i.operand with
  | .field f => .ok f
  | _ => .error i.malformed

/-- The type that an instruction names. -/
def typeRef (i : Instruction) : Except Fault TypeRef :=
  match i.operand with
  | .type t => .ok t
  | _ => .error i.malformed

/-- The method that a call names, with its type arguments. -/
def methodRef (i : Instruction) : Except Fault (MethodRef × List TypeRef) :=
  match i.operand with
  | .method m => .ok (m, [])
  | .genericMethod m typeArgs => .ok (m, typeArgs)
  | _ => .error i.malformed

end Instruction

/-- What the instructions of a frame can see of the machine. -/
structure Surroundings where
  session : Session
  stackLimit : Nat

namespace Surroundings

/-- Pushes a value and goes on. -/
def push (s : Surroundings) (f : Frame) (v : Value) : Except Fault Frame := do
  let f ← f.push s.stackLimit v
  return f.advance

/-- Replaces the top of the stack. -/
def onTop (s : Surroundings) (f : Frame) (op : Value → Except Fault Value) :
    Except Fault Frame := do
  let (v, f) ← f.pop
  s.push f (← op v)

/-- Replaces the two values on top of the stack. -/
def onTopTwo (s : Surroundings) (f : Frame) (op : Value → Value → Except Fault Value) :
    Except Fault Frame := do
  let (b, f) ← f.pop
  let (a, f) ← f.pop
  s.push f (← op a b)

/-- Stores the top of the stack and goes on. -/
def store (f : Frame) (set : Frame → Value → Except Fault Frame) : Except Fault Frame := do
  let (v, f) ← f.pop
  let f ← set f v
  return f.advance

/-! ## Constants, arguments and locals -/

/-- The constant that an instruction loads. -/
def loadConstant (s : Surroundings) (f : Frame) (i : Instruction) : Except Fault Frame :=
  match i.opcode, i.operand with
  | .ldnull, _ => s.push f .null
  | .ldcI4MinusOne, _ => s.push f (.i32 (-1))
  | .ldcI4Implied v, _ => s.push f (.i32 (Int32.ofNat v))
  | .ldcI4 _, .i32 v => s.push f (.i32 v)
  | .ldcI8, .i64 v => s.push f (.i64 v)
  | .ldcR4, .f32 v => s.push f (.f32 v)
  | .ldcR8, .f64 v => s.push f (.f64 v)
  | .ldstr, .str v => s.push f (.str v)
  | _, _ => .error i.malformed

/-! ## Branches -/

/-- Whether a branch is taken, and the frame without the values that it tested. -/
def testBranch (f : Frame) (test : BranchTest) (op : String) : Except Fault (Bool × Frame) :=
  match test with
  | .always => .ok (true, f)
  | .isTrue => do
    let (v, f) ← f.pop
    return (v.isTrue, f)
  | .isFalse => do
    let (v, f) ← f.pop
    return (!v.isTrue, f)
  | .compare c => do
    let (b, f) ← f.pop
    let (a, f) ← f.pop
    return (← c.eval op a b, f)

/-- A branch goes to its label or on, by what its test finds. -/
def branch (f : Frame) (i : Instruction) (test : BranchTest) : Except Fault Frame := do
  let l ← i.label
  let (taken, f) ← testBranch f test i.opcode.mnemonic
  if taken then return f.jump (← f.target l) else return f.advance

/-- Goes to the label that the index on the stack selects, if there is one. -/
def switch (f : Frame) (i : Instruction) : Except Fault Frame := do
  match i.operand with
  | .switch labels =>
    let (v, f) ← f.pop
    match v.asI32? with
    | none => .error (.typeError ("switch index must be i32, found " ++ v.kindName))
    | some index =>
      match labels[index.toUInt32.toNat]? with
      | some l => return f.jump (← f.target l)
      | none => return f.advance
  | _ => .error i.malformed

/-! ## Objects -/

/-- The value of a field of the object on top takes its place. -/
def loadField (s : Surroundings) (heap : Heap) (f : Frame) (i : Instruction) :
    Except Fault Frame := do
  let field ← s.session.fieldAt (← i.fieldRef)
  let (receiver, f) ← f.pop
  match field.slot, receiver with
  | _, .null => .error .nullReference
  | .instance slot, .object r =>
    match heap.slot? r slot with
    | some v => s.push f v
    | none => .error (.runtimeError ("field '" ++ field.name ++ "' outside object layout"))
  | .literal, _ => s.push f field.literalValue
  | _, v => .error (.typeError ("ldfld '" ++ field.name ++ "' on " ++ v.kindName))

/-- The value on top goes into a field of the object below it. -/
def storeField (s : Surroundings) (heap : Heap) (f : Frame) (i : Instruction) :
    Except Fault (Frame × Heap) := do
  let field ← s.session.fieldAt (← i.fieldRef)
  let (v, f) ← f.pop
  let (receiver, f) ← f.pop
  match field.slot, receiver with
  | _, .null => .error .nullReference
  | .instance slot, .object r =>
    match heap.setSlot r slot v with
    | .ok heap => return (f.advance, heap)
    | .error reason => .error (.runtimeError reason)
  | _, v => .error (.typeError ("stfld '" ++ field.name ++ "' on " ++ v.kindName))

/-- The fault of a value that is no instance of a type. -/
def invalidCast (v : Value) (t : TypeRef) : Fault :=
  .invalidCast v.kindName t.display

/-- A value that a cast lets through: null, or an instance of the type. -/
def castTo (s : Surroundings) (t : TypeRef) (v : Value) : Except Fault Value :=
  if v.isNull || s.session.isInstance v t then .ok v else .error (invalidCast v t)

/-- A value taken out of its box.  A box of another type of the same form is taken
as well. -/
def unbox (s : Surroundings) (t : TypeRef) (v : Value) : Except Fault Value :=
  if t.isValueType then
    match v with
    | .null => .error .nullReference
    | .boxed _ u content =>
      if u = t ∨ u.form = t.form then .ok content else .error (invalidCast v t)
    | _ => .error (invalidCast v t)
  else s.castTo t v

/-- The top of the stack goes into a box. -/
def box (s : Surroundings) (heap : Heap) (f : Frame) (t : TypeRef) :
    Except Fault (Frame × Heap) := do
  let (v, f) ← f.pop
  let (boxed, heap) := if t.isValueType then heap.allocBox t v else (v, heap)
  return (← s.push f boxed, heap)

/-! ## Arrays -/

/-- An array with default items, as many as the top of the stack says. -/
def newArray (s : Surroundings) (heap : Heap) (f : Frame) (element : TypeRef) :
    Except Fault (Frame × Heap) := do
  let (length, f) ← f.pop
  match length.asI64? with
  | none =>
    .error (.typeError ("array length must be an integer, found " ++ length.kindName))
  | some n =>
    if n < 0 then .error (.overflow "newarr")
    else
      let (r, heap) := heap.allocDefaults element n.toInt.toNat
      return (← s.push f (.array r), heap)

/-- The number of items of an array. -/
def arrayLength (heap : Heap) : Value → Except Fault Value
  | .array r => .ok (.i32 (Int32.ofNat (heap.length r)))
  | .null => .error .nullReference
  | v => .error (.typeError ("ldlen on " ++ v.kindName))

/-- The array that a value refers to. -/
def expectArray : Value → Except Fault ArrayRef
  | .array r => .ok r
  | .null => .error .nullReference
  | v => .error (.typeError ("expected an array, found " ++ v.kindName))

/-- The position in an array that a value names. -/
def checkIndex (index : Value) (length : Nat) : Except Fault Nat :=
  match index.asI64? with
  | none => .error (.typeError ("array index must be an integer, found " ++ index.kindName))
  | some i =>
    if 0 ≤ i.toInt ∧ i.toInt < length then .ok i.toInt.toNat
    else .error (.indexOutOfRange i length)

/-- The item of an array at the index on top. -/
def loadElement (s : Surroundings) (heap : Heap) (f : Frame) : Except Fault Frame := do
  let (index, f) ← f.pop
  let (array, f) ← f.pop
  let r ← expectArray array
  let i ← checkIndex index (heap.length r)
  s.push f ((heap.item? r i).getD .null)

/-- The value on top becomes an item of an array. -/
def storeElement (heap : Heap) (f : Frame) : Except Fault (Frame × Heap) := do
  let (v, f) ← f.pop
  let (index, f) ← f.pop
  let (array, f) ← f.pop
  let r ← expectArray array
  let i ← checkIndex index (heap.length r)
  return (f.advance, heap.setItem r i v)

/-! ## Requests to the machine -/

/-- Loads a static field.  A literal needs no storage. -/
def loadStatic (s : Surroundings) (f : Frame) (i : Instruction) : Except Fault Request := do
  let field ← s.session.fieldAt (← i.fieldRef)
  match field.slot with
  | .static slot =>
    return .prepare f field.handle.owner (.load field.handle.owner slot)
  | .literal => return .proceed (← s.push f field.literalValue)
  | .instance _ => .error (.typeError ("ldsfld on instance field '" ++ field.name ++ "'"))

/-- A request to write a static field, for its type may have to be set up before. -/
def storeStatic (s : Surroundings) (f : Frame) (i : Instruction) : Except Fault Request := do
  let field ← s.session.fieldAt (← i.fieldRef)
  let (v, f) ← f.pop
  match field.slot with
  | .static slot =>
    return .prepare f field.handle.owner (.store field.handle.owner slot v)
  | _ => .error (.typeError ("stsfld on non-static field '" ++ field.name ++ "'"))

/-- What a caller waits for: a result, or nothing. -/
def resumeFor (m : RealizedMethod) : Resume :=
  if m.returnType = .void then .dropResult else .pushResult

/-- Calls a method; a static method first has its type initialized, and a virtual
call finds the method that its receiver runs. -/
def call (s : Surroundings) (f : Frame) (i : Instruction) (dispatched : Bool) :
    Except Fault Request := do
  let (handle, typeArgs) ← i.methodRef
  let typeArgs := typeArgs.map f.resolve
  let m ← s.session.methodAt handle
  let (args, f) ← f.popMany (m.params.length + if m.isStatic then 0 else 1)
  if m.isStatic then
    return .prepare f handle.owner (.call m args typeArgs)
  else if dispatched then
    match args with
    | [] => .error .stackUnderflow
    | receiver :: _ =>
      let target ← s.session.dispatch receiver m
      return .invoke f target args typeArgs (resumeFor target)
  else
    return .invoke f m args typeArgs (resumeFor m)

/-- Constructs an object of the type that declares the constructor. -/
def construct (s : Surroundings) (f : Frame) (i : Instruction) : Except Fault Request := do
  let (handle, typeArgs) ← i.methodRef
  let typeArgs := typeArgs.map f.resolve
  let m ← s.session.methodAt handle
  let t ← s.session.typeAt handle.owner
  let (args, f) ← f.popMany m.params.length
  if t.isInstantiable then
    return .prepare f t.id (.construct t m args typeArgs)
  else .error (.abstractInstantiation t.fullName)

/-- The frame ends, with a result if its method has one. -/
def returnValue (f : Frame) : Except Fault Request :=
  if f.method.returnType = .void then .ok (.finish .null)
  else do
    let (v, _) ← f.pop
    return .finish v

/-- The frame raises the exception on top of its stack. -/
def throwTop (f : Frame) : Except Fault Request := do
  let (v, f) ← f.pop
  if v.isNull then .error .nullReference else return .raise f v

/-- The frame raises the exception that it is handling. -/
def rethrow (f : Frame) : Except Fault Request :=
  match f.handled? with
  | some v => .ok (.raise f v)
  | none => .error (.runtimeError "rethrow outside of a catch handler")

/-- Ends a finally handler. -/
def endFinally (f : Frame) : Except Fault Request :=
  match f.pending with
  | [] => .error (.runtimeError "endfinally outside of a finally handler")
  | c :: pending =>
    let f := { f with stack := [], pending := pending }
    match c with
    | .leave _ target remaining => .ok (.proceed (f.continueTo target remaining))
    | .unwind _ exception => .ok (.raise f exception)

/-- Executes an instruction of a frame. -/
def execute (s : Surroundings) (heap : Heap) (f : Frame) (i : Instruction) :
    Except Fault (Request × Heap) :=
  let inFrame (r : Except Fault Frame) : Except Fault (Request × Heap) :=
    r.map fun f => (.proceed f, heap)
  let inHeap (r : Except Fault (Frame × Heap)) : Except Fault (Request × Heap) :=
    r.map fun (f, heap) => (.proceed f, heap)
  let request (r : Except Fault Request) : Except Fault (Request × Heap) :=
    r.map (·, heap)
  match i.opcode with
  | .nop => inFrame (.ok f.advance)
  | .dup => inFrame do
    let (v, _) ← f.pop
    s.push f v
  | .pop => inFrame do
    let (_, f) ← f.pop
    return f.advance
  | .ldnull | .ldcI4MinusOne | .ldcI4Implied _ | .ldcI4 _ | .ldcI8 | .ldcR4 | .ldcR8 | .ldstr =>
    inFrame (s.loadConstant f i)
  | .ldargImplied n => inFrame do s.push f (← f.argAt n)
  | .ldarg _ => inFrame do s.push f (← f.argAt (← i.argIndex))
  | .starg _ => inFrame (store f fun f v => do f.setArg (← i.argIndex) v)
  | .ldlocImplied n => inFrame do s.push f (← f.localAt n)
  | .ldloc _ => inFrame do s.push f (← f.localAt (← i.localIndex))
  | .stlocImplied n => inFrame (store f fun f v => f.setLocal n v)
  | .stloc _ => inFrame (store f fun f v => do f.setLocal (← i.localIndex) v)
  | .binary op => inFrame (s.onTopTwo f (Arithmetic.binary op))
  | .shift op => inFrame (s.onTopTwo f (Arithmetic.shift op))
  | .neg => inFrame (s.onTop f Arithmetic.negate)
  | .not => inFrame (s.onTop f Arithmetic.complement)
  | .ckfinite => inFrame (s.onTop f Arithmetic.checkFinite)
  | .compare op => inFrame (s.onTopTwo f fun a b =>
      return .i32 (if ← op.eval a b then 1 else 0))
  | .conv target => inFrame (s.onTop f (Opcode.convertValue target))
  | .convOvf target => inFrame (s.onTop f (Opcode.convertValueChecked target))
  | .branch test _ => inFrame (branch f i test)
  | .switch => inFrame (switch f i)
  | .call => request (s.call f i false)
  | .callvirt => request (s.call f i true)
  | .newobj => request (s.construct f i)
  | .ret => request (returnValue f)
  | .ldfld => inFrame (s.loadField heap f i)
  | .stfld => inHeap (s.storeField heap f i)
  | .ldsfld => request (s.loadStatic f i)
  | .stsfld => request (s.storeStatic f i)
  | .castclass => inFrame do
    let t ← i.typeRef
    s.onTop f (s.castTo (f.resolve t))
  | .isinst => inFrame do
    let t ← i.typeRef
    s.onTop f fun v => .ok (if s.session.isInstance v (f.resolve t) then v else .null)
  | .box => inHeap do
    let t ← i.typeRef
    s.box heap f (f.resolve t)
  | .unboxAny => inFrame do
    let t ← i.typeRef
    s.onTop f (s.unbox (f.resolve t))
  | .newarr => inHeap do
    let t ← i.typeRef
    s.newArray heap f (f.resolve t)
  | .ldlen => inFrame (s.onTop f (arrayLength heap))
  | .ldelem => inFrame (s.loadElement heap f)
  | .stelem => inHeap (storeElement heap f)
  | .throw => request (throwTop f)
  | .rethrow => request (rethrow f)
  | .leave _ => inFrame do
    let l ← i.label
    return f.leave (← f.target l)
  | .endfinally => request (endFinally f)

end Surroundings

end ManagedCode
