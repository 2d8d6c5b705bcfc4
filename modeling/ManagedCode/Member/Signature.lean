import ManagedCode.Code.Body
import ManagedCode.Constant
import ManagedCode.Member.Access

/-!
# Signatures

Parameters, and the signatures of methods and fields as lookups answer them.
-/

namespace ManagedCode

/-- A parameter with its name and its type. -/
structure Parameter where
  name : String
  type : TypeRef
  default : Option Constant := none
  isOut : Bool := false
deriving Inhabited

/-- What a method is for. -/
inductive MethodKind where
  | method | constructor | typeInitializer | getter | setter
deriving DecidableEq, Repr, Inhabited

namespace MethodKind

/-- Every method kind, in the order in which they are declared. -/
def all : List MethodKind :=
  [method, constructor, typeInitializer, getter, setter]

/-- The name of a kind of method. -/
def name : MethodKind → String
  | method => "Method"
  | constructor => "Constructor"
  | typeInitializer => "TypeInitializer"
  | getter => "Getter"
  | setter => "Setter"

/-- Constructors and type initializers set something up. -/
def isConstructor : MethodKind → Bool
  | constructor | typeInitializer => true
  | _ => false

end MethodKind

/-- What other types see of a method. -/
structure MethodSignature where
  handle : MethodRef
  name : String
  kind : MethodKind
  attributes : MethodAttributes
  params : List TypeRef
  paramNames : List String
  returnType : TypeRef
  genericParams : List String
deriving DecidableEq, Repr, Inhabited

/-- What other types see of a field. -/
structure FieldSignature where
  handle : FieldRef
  name : String
  type : TypeRef
  attributes : FieldAttributes
deriving DecidableEq, Repr, Inhabited

namespace MethodSignature

/-- A static method has no receiver. -/
def isStatic (m : MethodSignature) : Bool :=
  m.attributes.isStatic

/-- A virtual method has a slot, and the type of the receiver decides what runs. -/
def isVirtual (m : MethodSignature) : Bool :=
  m.attributes.isVirtual

/-- A final method is overridden no further. -/
def isFinal (m : MethodSignature) : Bool :=
  m.attributes.isFinal

/-- Whether a method that is no constructor has the given name, and the given
parameter types and return type where these are given. -/
def isMatch (m : MethodSignature) (name : String) (params : Option (List TypeRef))
    (returnType : Option TypeRef) : Bool :=
  m.name == name && !m.kind.isConstructor
    && params.all (· == m.params) && returnType.all (· == m.returnType)

/-- What a call instruction to the method takes and leaves.  An instance method
also takes its receiver; a construction leaves the new object. -/
def callEffect (m : MethodSignature) (op : Opcode) : CallEffect :=
  match op with
  | .newobj => ⟨m.params.length, 1⟩
  | _ =>
    ⟨m.params.length + (if m.isStatic then 0 else 1), if m.returnType = .void then 0 else 1⟩

end MethodSignature

end ManagedCode
