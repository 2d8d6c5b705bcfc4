import ManagedCode.Machine.Fault
import ManagedCode.Realized

/-!
# Frames

The activation of a method: its arguments, locals and evaluation stack, the
instruction that it is at, and the handlers that it is inside of.

While a callee runs, its caller stays at the calling instruction.  A `Resume`
tells how that instruction is completed when the callee returns, and a `Deferred`
what is left of an instruction that had to wait for the initializer of a type.
-/

namespace ManagedCode

/-- What goes on when a finally handler has run: the way to the target of a leave,
through the finally handlers that remain, or the search for a handler of an
exception. -/
inductive AfterFinally where
  | leave (region target : Nat) (remaining : List Nat)
  | unwind (region : Nat) (exception : Value)
deriving Inhabited

/-- What is left of an instruction once its type is initialized. -/
inductive Deferred where
  | load (owner : TypeId) (slot : Nat)
  | store (owner : TypeId) (slot : Nat) (value : Value)
  | call (method : RealizedMethod) (args : List Value) (typeArgs : List TypeRef)
  | construct (type : RealizedType) (constructor : RealizedMethod) (args : List Value)
      (typeArgs : List TypeRef)
deriving Inhabited

/-- How the caller goes on with what a callee returns. -/
inductive Resume where
  | pushResult
  | dropResult
  | pushObject (object : Value)
  | perform (rest : Deferred)
deriving Inhabited

/-- The evaluation stack has its top first, and so have the lists of pending
continuations and of exceptions being handled, the latter with their regions. -/
structure Frame where
  method : RealizedMethod
  body : MethodBody
  args : List Value
  locals : List Value
  typeArgs : List TypeRef
  resume : Resume
  stack : List Value := []
  ip : Nat := 0
  pending : List AfterFinally := []
  handling : List (Nat × Value) := []
deriving Inhabited

namespace AfterFinally

/-- The finally region whose handler is being run. -/
def region : AfterFinally → Nat
  | leave r _ _ => r
  | unwind r _ => r

end AfterFinally

namespace Frame

/-- A new activation, with each local at the default of its type. -/
def enter (m : RealizedMethod) (body : MethodBody) (args : List Value) (typeArgs : List TypeRef)
    (resume : Resume) : Frame :=
  { method := m
    body := body
    args := args
    locals := body.locals.toList.map fun t =>
      (Value.initial (t.substitute m.genericParams typeArgs)).toStack
    typeArgs := typeArgs
    resume := resume }

/-- A type with the type arguments of the activation, if it mentions any generic parameter. -/
def resolve (f : Frame) (t : TypeRef) : TypeRef :=
  if t.hasGeneric then t.substitute f.method.genericParams f.typeArgs else t

/-- Pushes a value, in stack form, onto a stack that may hold `limit` values. -/
def push (limit : Nat) (f : Frame) (v : Value) : Except Fault Frame :=
  if f.stack.length < limit then .ok { f with stack := v.toStack :: f.stack }
  else .error .stackOverflow

/-- The top of the stack and what is below it. -/
def pop (f : Frame) : Except Fault (Value × Frame) :=
  match f.stack with
  | v :: rest => .ok (v, { f with stack := rest })
  | [] => .error .stackUnderflow

/-- Takes `n` values, the deepest first. -/
def popMany (n : Nat) (f : Frame) : Except Fault (List Value × Frame) :=
  if f.stack.length < n then .error .stackUnderflow
  else .ok ((f.stack.take n).reverse, { f with stack := f.stack.drop n })

/-- Goes on to the next instruction. -/
def advance (f : Frame) : Frame :=
  { f with ip := f.ip + 1 }

/-- The frame at another instruction. -/
def jump (f : Frame) (ip : Nat) : Frame :=
  { f with ip := ip }

/-- The instruction that a label marks. -/
def target (f : Frame) (l : Label) : Except Fault Nat :=
  match f.body.target? l with
  | some ip => .ok ip
  | none =>
    .error (.runtimeError
      ("unresolved label " ++ toString l.id ++ " in '" ++ f.method.name ++ "'"))

/-- The fault of an index for which there is no variable. -/
def outOfRange (f : Frame) (what : String) (i : Nat) : Fault :=
  .runtimeError (what ++ " " ++ toString i ++ " out of range in '" ++ f.method.name ++ "'")

/-- An argument. -/
def argAt (f : Frame) (i : Nat) : Except Fault Value :=
  match f.args[i]? with
  | some v => .ok v
  | none => .error (f.outOfRange "argument" i)

/-- A frame with another value for an argument. -/
def setArg (f : Frame) (i : Nat) (v : Value) : Except Fault Frame :=
  if i < f.args.length then .ok { f with args := f.args.set i v }
  else .error (f.outOfRange "argument" i)

/-- A local. -/
def localAt (f : Frame) (i : Nat) : Except Fault Value :=
  match f.locals[i]? with
  | some v => .ok v
  | none => .error (f.outOfRange "local" i)

/-- A frame with another value for a local. -/
def setLocal (f : Frame) (i : Nat) (v : Value) : Except Fault Frame :=
  if i < f.locals.length then .ok { f with locals := f.locals.set i v }
  else .error (f.outOfRange "local" i)

end Frame

end ManagedCode
