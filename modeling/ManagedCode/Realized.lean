import ManagedCode.Attribute.Custom
import ManagedCode.Member.Signature
import ManagedCode.Value

/-!
# Realized types

A type that a unit has finalized: its members with the slots they were given, the
defaults of its slots, its table of virtual methods, and the implementation of
each interface method.  A realized type never changes.
-/

namespace ManagedCode

/-- The virtual methods of a class by slot. -/
structure VTable where
  methods : List MethodRef := []
deriving DecidableEq, Repr, Inhabited

namespace VTable

/-- Gives a method a slot of its own. -/
def add (t : VTable) (m : MethodRef) : Nat × VTable :=
  (t.methods.length, ⟨t.methods ++ [m]⟩)

/-- The method that fills a slot. -/
def method? (t : VTable) (slot : Nat) : Option MethodRef :=
  t.methods[slot]?

/-- How many slots the table has. -/
def size (t : VTable) : Nat :=
  t.methods.length

/-- Puts a method into a slot that the table has; otherwise answers with the
reason. -/
def override (t : VTable) (slot : Nat) (m : MethodRef) : Except String VTable :=
  if slot < t.methods.length then .ok ⟨t.methods.set slot m⟩
  else .error ("Method slot " ++ toString slot ++ " out of bounds")

end VTable

/-- Where a field's value is kept: in each object, once for the type, or in the
declaration alone. -/
inductive FieldStorage where
  | instance (index : Nat)
  | static (index : Nat)
  | literal
deriving DecidableEq, Repr, Inhabited

/-- A field with the place of its storage. -/
structure RealizedField where
  handle : FieldRef
  name : String
  type : TypeRef
  attributes : FieldAttributes
  slot : FieldStorage
  constant : Option Constant
deriving Inhabited

/-- A method with its slot, if it has one, and its body. -/
structure RealizedMethod where
  handle : MethodRef
  name : String
  kind : MethodKind
  attributes : MethodAttributes
  params : List Parameter
  returnType : TypeRef
  genericParams : List String
  body : Option MethodBody
  vtableSlot : Option Nat
  overrides : Option MethodRef
  customAttributes : List CustomAttribute
deriving Inhabited

/-- A property with its accessors. -/
structure RealizedProperty where
  name : String
  type : TypeRef
  getter : Option MethodRef
  setter : Option MethodRef
  backingField : Option FieldRef
deriving Inhabited

/-- A type with its final layout, as it is registered in the session. -/
structure RealizedType where
  handle : DefinedType
  name : String
  fullName : String
  attributes : TypeAttributes
  base : Option TypeId
  interfaces : List TypeId
  allInterfaces : List TypeId
  enclosing : Option TypeId
  nested : List TypeId
  fields : List RealizedField
  methods : List RealizedMethod
  properties : List RealizedProperty
  instanceDefaults : List Value
  staticDefaults : List Value
  vtable : VTable
  interfaceMap : List (MethodRef × MethodRef)
  typeInitializer : Option MethodRef
  customAttributes : List CustomAttribute
deriving Inhabited

namespace RealizedField

/-- A literal has a constant and no storage. -/
def isLiteral (f : RealizedField) : Bool :=
  f.attributes.isLiteral

/-- What other types see of the field. -/
def sig (f : RealizedField) : FieldSignature :=
  ⟨f.handle, f.name, f.type, f.attributes⟩

/-- The value of a literal field. -/
def literalValue (f : RealizedField) : Value :=
  ((f.constant.map Value.ofConstant).getD .null).coerceTo f.type

end RealizedField

namespace RealizedMethod

/-- A static method has no receiver. -/
def isStatic (m : RealizedMethod) : Bool :=
  m.attributes.isStatic

/-- The type of the receiver decides what a call of a virtual method runs. -/
def isVirtual (m : RealizedMethod) : Bool :=
  m.attributes.isVirtual

/-- An abstract method has no body of its own. -/
def isAbstract (m : RealizedMethod) : Bool :=
  m.attributes.isAbstract

/-- The types by which a call selects the method. -/
def paramTypes (m : RealizedMethod) : List TypeRef :=
  m.params.map (·.type)

/-- What other types see of the method. -/
def sig (m : RealizedMethod) : MethodSignature :=
  { handle := m.handle
    name := m.name
    kind := m.kind
    attributes := m.attributes
    params := m.paramTypes
    paramNames := m.params.map (·.name)
    returnType := m.returnType
    genericParams := m.genericParams }

/-- Whether a method has the signature of an interface method, with the generic
parameters of the two matched by position. -/
def fulfils (candidate contract : RealizedMethod) : Bool :=
  let rename (t : TypeRef) :=
    t.substitute candidate.genericParams (contract.genericParams.map .generic)
  candidate.name == contract.name
    && !candidate.isStatic
    && !candidate.kind.isConstructor
    && candidate.genericParams.length == contract.genericParams.length
    && candidate.params.map (rename ·.type) == contract.paramTypes
    && rename candidate.returnType == contract.returnType

end RealizedMethod

namespace RealizedType

/-- The id that the type has had since it was opened. -/
def id (t : RealizedType) : TypeId :=
  t.handle.id

/-- Whether objects of exactly this type can be made. -/
def isInstantiable (t : RealizedType) : Bool :=
  !(t.attributes.isAbstract || t.attributes.isInterface || t.attributes.isValueType)

/-- A method of the type, by the position at which it was declared. -/
def method? (t : RealizedType) (index : Nat) : Option RealizedMethod :=
  t.methods[index]?

/-- A field of the type, by the position at which it was declared. -/
def field? (t : RealizedType) (index : Nat) : Option RealizedField :=
  t.fields[index]?

/-- The first method with a name, and with parameter types if they are given. -/
def findMethod? (t : RealizedType) (name : String) (params : Option (List TypeRef)) :
    Option RealizedMethod :=
  t.methods.find? fun m =>
    m.name == name && !m.kind.isConstructor && params.all (· == m.paramTypes)

/-- The first field with a name. -/
def findField? (t : RealizedType) (name : String) : Option RealizedField :=
  t.fields.find? (·.name == name)

/-- The first property with a name. -/
def property? (t : RealizedType) (name : String) : Option RealizedProperty :=
  t.properties.find? (·.name == name)

/-- The constructors of objects, in order of declaration. -/
def constructors (t : RealizedType) : List RealizedMethod :=
  t.methods.filter (·.kind == .constructor)

/-- The constructor with the given parameter types. -/
def constructor? (t : RealizedType) (params : List TypeRef) : Option RealizedMethod :=
  t.constructors.find? (·.paramTypes == params)

/-- The literals of an enumeration with their values. -/
def literals (t : RealizedType) : List (String × Constant) :=
  (t.fields.filter (·.isLiteral)).filterMap fun f => f.constant.map (f.name, ·)

/-- The value of a literal by its name. -/
def literal? (t : RealizedType) (name : String) : Option Constant :=
  (t.fields.find? fun f => f.isLiteral && f.name == name).bind (·.constant)

/-- Whether the interface is among those that the type was found to have when it was laid out. -/
def implements (t : RealizedType) (interface : TypeId) : Bool :=
  t.allInterfaces.contains interface

/-- The method that implements an interface method. -/
def implementation? (t : RealizedType) (m : MethodRef) : Option MethodRef :=
  t.interfaceMap.lookup m

end RealizedType

end ManagedCode
