import ManagedCode.Code.Opcode

/-!
# Method bodies

An instruction is an opcode with an operand; `Operand.fits` says which operands
an opcode's operand kind accepts.  A sealed method body holds its instructions,
the positions its labels stand for, the types of its locals, its protected
regions, and a bound on the depth of the evaluation stack.
-/

namespace ManagedCode

/-- A place in a body that branches can name before it is known. -/
structure Label where
  id : Nat
deriving DecidableEq, Repr, Inhabited

/-- What accompanies an opcode. -/
inductive Operand where
  | none
  | i32 (value : Int32)
  | i64 (value : Int64)
  | f32 (value : Float32)
  | f64 (value : Float)
  | str (value : String)
  | arg (index : UInt16)
  | localSlot (index : UInt16)
  | label (target : Label)
  | switch (targets : List Label)
  | method (target : MethodRef)
  | genericMethod (target : MethodRef) (typeArgs : List TypeRef)
  | field (target : FieldRef)
  | type (target : TypeRef)
deriving Inhabited

/-- An opcode with its operand. -/
structure Instruction where
  opcode : Opcode
  operand : Operand
deriving Inhabited

/-- How a handler is entered: by an exception of a type, or on every way out of
the range it protects. -/
inductive HandlerKind where
  | catching (exception : TypeRef)
  | finalizing
deriving DecidableEq, Repr, Inhabited

/-- A protected range of instructions with its handler.  Both ranges hold their
starts and not their ends. -/
structure Region where
  tryStart : Nat
  tryEnd : Nat
  handlerStart : Nat
  handlerEnd : Nat
  kind : HandlerKind
deriving DecidableEq, Repr, Inhabited

/-- A sealed method body. -/
structure MethodBody where
  instructions : Array Instruction
  labels : Array (Option Nat)
  locals : Array TypeRef
  regions : List Region
  maxStack : Nat
deriving Inhabited

/-- What a call takes from the stack and leaves there. -/
structure CallEffect where
  pops : Nat
  pushes : Nat
deriving DecidableEq, Repr, Inhabited

namespace OperandKind

/-- Every operand kind, in the order in which they are declared. -/
def all : List OperandKind :=
  [none, shortI32, i32, i64, f32, f64, str, shortArg, arg, shortLocal, localSlot,
    label, switch, method, field, type]

/-- The name of a kind in error messages. -/
def name : OperandKind → String
  | none => "None"
  | shortI32 => "ShortI32"
  | i32 => "I32"
  | i64 => "I64"
  | f32 => "F32"
  | f64 => "F64"
  | str => "Str"
  | shortArg => "ShortArg"
  | arg => "Arg"
  | shortLocal => "ShortLocal"
  | localSlot => "Local"
  | label => "Label"
  | switch => "Switch"
  | method => "Method"
  | field => "Field"
  | type => "Type"

end OperandKind

namespace Operand

/-- A short kind accepts an operand of its long kind that one byte can hold. -/
def fits : Operand → OperandKind → Bool
  | none, .none => true
  | i32 v, .shortI32 => decide (-128 ≤ v ∧ v ≤ 127)
  | i32 _, .i32 => true
  | i64 _, .i64 => true
  | f32 _, .f32 => true
  | f64 _, .f64 => true
  | str _, .str => true
  | arg i, .shortArg => decide (i ≤ 255)
  | arg _, .arg => true
  | localSlot i, .shortLocal => decide (i ≤ 255)
  | localSlot _, .localSlot => true
  | label _, .label => true
  | switch _, .switch => true
  | method _, .method => true
  | genericMethod _ _, .method => true
  | field _, .field => true
  | type _, .type => true
  | _, _ => false

/-- The method that an operand names. -/
def method? : Operand → Option MethodRef
  | method m => some m
  | genericMethod m _ => some m
  | _ => Option.none

/-- The labels that an operand names, in order. -/
def labels : Operand → List Label
  | label l => [l]
  | switch ls => ls
  | _ => []

end Operand

namespace HandlerKind

/-- The handler as a listing shows it. -/
def display : HandlerKind → String
  | catching t => "catch " ++ t.display
  | finalizing => "finally"

end HandlerKind

namespace Region

/-- Whether the protected instructions hold the position. -/
def protects (r : Region) (ip : Nat) : Bool :=
  decide (r.tryStart ≤ ip ∧ ip < r.tryEnd)

/-- Whether the instructions of the handler hold the position. -/
def inHandler (r : Region) (ip : Nat) : Bool :=
  decide (r.handlerStart ≤ ip ∧ ip < r.handlerEnd)

end Region

namespace MethodBody

/-- The position that a label stands for. -/
def target? (body : MethodBody) (l : Label) : Option Nat :=
  (body.labels[l.id]?).join

/-- The opcodes of the body in order. -/
def opcodes (body : MethodBody) : List Opcode :=
  body.instructions.toList.map (·.opcode)

end MethodBody

end ManagedCode
