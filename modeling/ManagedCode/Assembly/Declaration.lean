import ManagedCode.Assembly.Error
import ManagedCode.Member.Signature

/-!
# Types under construction

What a unit knows about a type that it defines: its place, its base and
interfaces, and its members.  Members of each kind have a list of their own, in
which they are known by position, and one list tells the order in which all of
them were defined.
-/

namespace ManagedCode

/-- How far a declaration is: types are realized one by one while the unit is finalized. -/
inductive DeclState where
  | building | realized
deriving DecidableEq, Repr, Inhabited

/-- An entry of the list of all members of a type. -/
inductive Member where
  | field (index : Nat)
  | property (index : Nat)
  | method (index : Nat)
  | constructor (index : Nat)
  | enumLiteral (index : Nat)
  | genericParam (method position : Nat) (name : String)
deriving DecidableEq, Repr, Inhabited

/-- A method under construction.  `baseSlot` is the base method that it overrides,
and `overrides` the interface method that it implements. -/
structure MethodDecl where
  name : String
  kind : MethodKind
  attributes : MethodAttributes
  params : List Parameter
  returnType : TypeRef
  genericParams : List String
  body : Option MethodBody := none
  overrides : Option MethodRef := none
  baseSlot : Option MethodRef := none
  customAttributes : List CustomAttribute := []
deriving Inhabited

/-- A field as it was declared, with its value or its constant. -/
structure FieldDecl where
  name : String
  type : TypeRef
  attributes : FieldAttributes
  constant : Option Constant
deriving Inhabited

/-- A property as it was declared.  Its accessors are methods of the type. -/
structure PropertyDecl where
  name : String
  type : TypeRef
  getter : Option Nat
  setter : Option Nat
  backingField : Option Nat
deriving Inhabited

/-- A type under construction, with its members in the order in which they were declared. -/
structure TypeDecl where
  handle : DefinedType
  name : String
  fullName : String
  visibility : Visibility
  modifier : Modifier
  attributes : TypeAttributes
  base : Option TypeRef := none
  interfaces : List TypeRef := []
  fields : List FieldDecl := []
  methods : List MethodDecl := []
  properties : List PropertyDecl := []
  members : List Member := []
  nested : List TypeId := []
  enclosing : Option TypeId := none
  customAttributes : List CustomAttribute := []
  state : DeclState := .building
  /-- The value of the next literal that is defined without one. -/
  nextLiteral : Int64 := 0
deriving Inhabited

namespace MethodDecl

/-- The types by which a call selects the method. -/
def paramTypes (m : MethodDecl) : List TypeRef :=
  m.params.map (·.type)

/-- A static method has no receiver. -/
def isStatic (m : MethodDecl) : Bool :=
  m.attributes.isStatic

/-- An abstract method has no body of its own. -/
def isAbstract (m : MethodDecl) : Bool :=
  m.attributes.isAbstract

/-- The signature of a method at a position of a type. -/
def sig (m : MethodDecl) (handle : MethodRef) : MethodSignature :=
  { handle := handle
    name := m.name
    kind := m.kind
    attributes := m.attributes
    params := m.paramTypes
    paramNames := m.params.map (·.name)
    returnType := m.returnType
    genericParams := m.genericParams }

end MethodDecl

namespace FieldDecl

/-- A static field has its storage in the type. -/
def isStatic (f : FieldDecl) : Bool :=
  f.attributes.isStatic

def sig (f : FieldDecl) (handle : FieldRef) : FieldSignature :=
  ⟨handle, f.name, f.type, f.attributes⟩

end FieldDecl

namespace TypeDecl

/-- The id that the type has had since it was opened. -/
def id (d : TypeDecl) : TypeId :=
  d.handle.id

/-- Whether the type has its final layout. -/
def isRealized (d : TypeDecl) : Bool :=
  d.state == .realized

/-- The handle of a method of the type, by the position at which it was declared. -/
def methodRef (d : TypeDecl) (index : Nat) : MethodRef :=
  ⟨d.id, index⟩

/-- The handle of a field of the type, by the position at which it was declared. -/
def fieldRef (d : TypeDecl) (index : Nat) : FieldRef :=
  ⟨d.id, index⟩

/-- The number of the base class, where it is a defined type. -/
def baseId? (d : TypeDecl) : Option TypeId :=
  d.base.bind TypeRef.definedId?

/-- The interfaces that name a type of the session. -/
def interfaceIds (d : TypeDecl) : List TypeId :=
  TypeRef.definedIds d.interfaces

end TypeDecl

end ManagedCode
