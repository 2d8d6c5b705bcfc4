import ManagedCode.TypeRef

/-!
# Visibility, modifiers and attributes

What a declaration asks for, a visibility and a modifier, and the attribute flags
that a type, a method or a field gets from it.  A flag set has one numeric form:
flag `i` of the structure is bit `i`.
-/

namespace ManagedCode

/-- Who may name a type or a member. -/
inductive Visibility where
  | isPublic | isPrivate | isInternal | isProtected
deriving DecidableEq, Repr, Inhabited

/-- Whether a type or a method must, may or must not be derived from. -/
inductive Modifier where
  | standard
  | isAbstract
  | isSealed
  | isVirtual
  | isStatic
  | explicitImplementation
deriving DecidableEq, Repr, Inhabited

/-- Where a method that another one overrides is declared. -/
inductive OverrideSource where
  | baseType | interface
deriving DecidableEq, Repr, Inhabited

/-- What a type is, apart from its name and its members. -/
structure TypeAttributes where
  isPublic : Bool := false
  notPublic : Bool := false
  nestedPublic : Bool := false
  nestedPrivate : Bool := false
  nestedAssembly : Bool := false
  nestedFamily : Bool := false
  isAbstract : Bool := false
  isSealed : Bool := false
  isInterface : Bool := false
  isValueType : Bool := false
deriving DecidableEq, Repr, Inhabited

/-- How a method is called and overridden. -/
structure MethodAttributes where
  isPublic : Bool := false
  isPrivate : Bool := false
  isAssembly : Bool := false
  isFamily : Bool := false
  isStatic : Bool := false
  isFinal : Bool := false
  isVirtual : Bool := false
  hideBySig : Bool := false
  newSlot : Bool := false
  isAbstract : Bool := false
  specialName : Bool := false
  runtimeSpecialName : Bool := false
deriving DecidableEq, Repr, Inhabited

/-- How a field is stored and written. -/
structure FieldAttributes where
  isPublic : Bool := false
  isPrivate : Bool := false
  isAssembly : Bool := false
  isFamily : Bool := false
  isStatic : Bool := false
  initOnly : Bool := false
  isLiteral : Bool := false
  hasDefault : Bool := false
deriving DecidableEq, Repr, Inhabited

namespace Visibility

/-- Every visibility, in the order in which they are declared. -/
def all : List Visibility :=
  [isPublic, isPrivate, isInternal, isProtected]

/-- The name of a visibility. -/
def name : Visibility → String
  | isPublic => "Public"
  | isPrivate => "Private"
  | isInternal => "Internal"
  | isProtected => "Protected"

end Visibility

namespace Modifier

/-- Every modifier, in the order in which they are declared. -/
def all : List Modifier :=
  [standard, isAbstract, isSealed, isVirtual, isStatic, explicitImplementation]

/-- The name of a modifier. -/
def name : Modifier → String
  | standard => "Standard"
  | isAbstract => "Abstract"
  | isSealed => "Sealed"
  | isVirtual => "Virtual"
  | isStatic => "Static"
  | explicitImplementation => "ExplicitInterfaceImpl"

end Modifier

namespace OverrideSource

/-- Where an override is looked for, by name. -/
def name : OverrideSource → String
  | baseType => "BaseType"
  | interface => "Interface"

end OverrideSource

/-- The number whose bits are the flags of a list, the first flag lowest. -/
def flagBits : List Bool → Nat
  | [] => 0
  | flag :: rest => (if flag then 1 else 0) + 2 * flagBits rest

namespace TypeAttributes

/-- The flags of a type as one number. -/
def bits (a : TypeAttributes) : Nat :=
  flagBits [a.isPublic, a.notPublic, a.nestedPublic, a.nestedPrivate, a.nestedAssembly,
    a.nestedFamily, a.isAbstract, a.isSealed, a.isInterface, a.isValueType]

/-- The attributes of a type.  Interfaces are abstract, enumerations are sealed
value types, and a static class is abstract and sealed. -/
def of (kind : TypeKind) (visibility : Visibility) (modifier : Modifier) (nested : Bool) :
    TypeAttributes :=
  let access : TypeAttributes :=
    match nested, visibility with
    | false, .isPublic => { isPublic := true }
    | false, _ => { notPublic := true }
    | true, .isPublic => { nestedPublic := true }
    | true, .isPrivate => { nestedPrivate := true }
    | true, .isInternal => { nestedAssembly := true }
    | true, .isProtected => { nestedFamily := true }
  match kind with
  | .interfaceType => { access with isInterface := true, isAbstract := true }
  | .enumType _ => { access with isSealed := true, isValueType := true }
  | .classType =>
    match modifier with
    | .isAbstract => { access with isAbstract := true }
    | .isSealed => { access with isSealed := true }
    | .isStatic => { access with isAbstract := true, isSealed := true }
    | .standard | .isVirtual | .explicitImplementation => access

end TypeAttributes

namespace MethodAttributes

/-- The flags of a method as one number. -/
def bits (a : MethodAttributes) : Nat :=
  flagBits [a.isPublic, a.isPrivate, a.isAssembly, a.isFamily, a.isStatic, a.isFinal,
    a.isVirtual, a.hideBySig, a.newSlot, a.isAbstract, a.specialName, a.runtimeSpecialName]

/-- The flags of a method from one number. -/
def ofBits (n : Nat) : MethodAttributes :=
  { isPublic := n.testBit 0
    isPrivate := n.testBit 1
    isAssembly := n.testBit 2
    isFamily := n.testBit 3
    isStatic := n.testBit 4
    isFinal := n.testBit 5
    isVirtual := n.testBit 6
    hideBySig := n.testBit 7
    newSlot := n.testBit 8
    isAbstract := n.testBit 9
    specialName := n.testBit 10
    runtimeSpecialName := n.testBit 11 }

/-- The access flags of a method of the given visibility. -/
def access : Visibility → MethodAttributes
  | .isPublic => { isPublic := true }
  | .isPrivate => { isPrivate := true }
  | .isInternal => { isAssembly := true }
  | .isProtected => { isFamily := true }

/-- The attributes of a method before it is known whether it overrides another
one.  Every method of an interface is abstract, and an explicit implementation of
an interface method is private and final. -/
def of (owner : TypeKind) (visibility : Visibility) (modifier : Modifier) : MethodAttributes :=
  let plain := { access visibility with hideBySig := true }
  if owner.isInterface then
    { plain with isAbstract := true, isVirtual := true, newSlot := true }
  else
    match modifier with
    | .standard => plain
    | .isAbstract => { plain with isAbstract := true, isVirtual := true, newSlot := true }
    | .isVirtual => { plain with isVirtual := true, newSlot := true }
    | .isSealed => { plain with isVirtual := true, isFinal := true, newSlot := true }
    | .isStatic => { plain with isStatic := true }
    | .explicitImplementation =>
      { hideBySig := true, isPrivate := true, isVirtual := true, isFinal := true, newSlot := true }

/-- The attributes of a method that overrides another one.  Below a base method it
takes over that method's slot; an implementation of an interface method gets a
slot of its own and is final unless it was declared virtual or abstract. -/
def overriding (a : MethodAttributes) (origin : OverrideSource) (modifier : Modifier) :
    MethodAttributes :=
  match origin with
  | .baseType =>
    { a with
      isVirtual := true
      newSlot := false
      isFinal := a.isFinal || modifier == .isSealed }
  | .interface =>
    { a with
      isVirtual := true
      newSlot := true
      isFinal := a.isFinal || (modifier != .isVirtual && modifier != .isAbstract) }

/-- The flags of a constructor, which no method overrides. -/
def ofConstructor (visibility : Visibility) (static : Bool) : MethodAttributes :=
  { access visibility with
    hideBySig := true
    specialName := true
    runtimeSpecialName := true
    isStatic := static }

end MethodAttributes

namespace FieldAttributes

/-- The flags of a field as one number. -/
def bits (a : FieldAttributes) : Nat :=
  flagBits [a.isPublic, a.isPrivate, a.isAssembly, a.isFamily, a.isStatic, a.initOnly,
    a.isLiteral, a.hasDefault]

/-- The attributes of a field.  A sealed field can be set by constructors only. -/
def of (visibility : Visibility) (modifier : Modifier) : FieldAttributes :=
  let access : FieldAttributes :=
    match visibility with
    | .isPublic => { isPublic := true }
    | .isPrivate => { isPrivate := true }
    | .isInternal => { isAssembly := true }
    | .isProtected => { isFamily := true }
  match modifier with
  | .isStatic => { access with isStatic := true }
  | .isSealed => { access with initOnly := true }
  | _ => access

/-- The attributes of the literals of an enumeration. -/
def ofLiteral : FieldAttributes :=
  { isPublic := true, isStatic := true, isLiteral := true, hasDefault := true }

end FieldAttributes

end ManagedCode
