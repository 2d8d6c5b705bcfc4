import ManagedCode.Assembly.Overriding
import ManagedCode.Emitter.Instructions
import ManagedCode.Emitter.Sealing

/-!
# Contexts and bodies

What a body generator can ask while it emits a method: the type and the member
that it belongs to, the method that it overrides, and everything the unit can look
up.  A generator may hand back remarks of a type of the caller's choice, which the
definition of the method passes on.
-/

namespace ManagedCode

/-- The member that is being built. -/
inductive MemberRef where
  | method (m : MethodRef)
  | field (f : FieldRef)
deriving DecidableEq, Repr, Inhabited

/-- What a body generator knows: the workspace, the type and the method for which it emits. -/
structure BodyContext where
  workspace : Workspace
  typeId : Option TypeId := none
  member : Option MemberRef := none
  overridden : Option Overridden := none
deriving Inhabited

/-- Emits a body and hands back remarks. -/
abbrev Generator (ρ : Type) :=
  BodyContext → Emitter → Except BuildError (Emitter × List ρ)

/-- A method body as a declaration gives it.  A minimal body returns the default
value of its return type; that of a constructor calls the constructor of the base
class that takes no arguments. -/
inductive Body (ρ : Type) where
  | minimal
  | generate (emit : Generator ρ)

namespace BodyContext

/-- The type of the method, while it is under construction. -/
def currentType? (c : BodyContext) : Option DefinedType :=
  c.typeId.bind fun id => (c.workspace.view? id).map (·.handle)

/-- The type of the method, which only a generator of a method under construction has. -/
def thisType (c : BodyContext) : Except BuildError DefinedType :=
  match c.currentType? with
  | some h => .ok h
  | none => .error (.invalidMember c.workspace.assembly.name "no current type in this context")

/-- A type by its full name: the unit's own, or a registered one. -/
def resolveType (c : BodyContext) (fullName : String) : Except BuildError DefinedType :=
  let w := c.workspace
  match w.assembly.localType? fullName <|> w.session.resolveType? fullName with
  | some h => .ok h
  | none => .error (.unresolvableMember w.assembly.name fullName)

/-- A field of the type of the method, or one that it inherits. -/
def field (c : BodyContext) (name : String) : Except BuildError FieldRef := do
  let this ← c.thisType
  return (← c.workspace.findField this.id name).handle

/-- A method of the type of the method, or one that it inherits, by its parameter types. -/
def method (c : BodyContext) (name : String) (params : List TypeRef) :
    Except BuildError MethodRef := do
  let this ← c.thisType
  return (← c.workspace.findMethod this.id name (some params)).handle

/-- A method of any type, or one that the type inherits. -/
def methodOn (c : BodyContext) (id : TypeId) (name : String) (params : Option (List TypeRef)) :
    Except BuildError MethodRef :=
  return (← c.workspace.findMethod id name params).handle

/-- A field of any type, or one that the type inherits. -/
def fieldOn (c : BodyContext) (id : TypeId) (name : String) : Except BuildError FieldRef :=
  return (← c.workspace.findField id name).handle

/-- A constructor of any type, which no type inherits. -/
def constructorOn (c : BodyContext) (id : TypeId) (params : List TypeRef) :
    Except BuildError MethodRef :=
  return (← c.workspace.findConstructor id params).handle

/-- The constructor of the base class that takes no arguments. -/
def baseConstructor? (c : BodyContext) : Option MethodRef := do
  let id ← c.typeId
  let s ← c.workspace.view? id
  let base ← s.base
  let m ← (c.workspace.findConstructor base []).toOption
  return m.handle

/-- Calls a method, by dispatch if it is virtual. -/
def emitCall (c : BodyContext) (e : Emitter) (m : MethodRef) : Except BuildError Emitter := do
  let sig ← c.workspace.methodSignature m
  return e.callMethod m (sig.isVirtual && !sig.isStatic)

/-- The instruction that reads a field, as the field is static or not. -/
def emitLoadField (c : BodyContext) (e : Emitter) (f : FieldRef) : Except BuildError Emitter := do
  let sig ← c.workspace.fieldSignature f
  return e.emitField (if sig.attributes.isStatic then .ldsfld else .ldfld) f

/-- The instruction that writes a field, as the field is static or not. -/
def emitStoreField (c : BodyContext) (e : Emitter) (f : FieldRef) :
    Except BuildError Emitter := do
  let sig ← c.workspace.fieldSignature f
  return e.emitField (if sig.attributes.isStatic then .stsfld else .stfld) f

/-- Emits a minimal body for a method. -/
def emitMinimal (c : BodyContext) (m : MethodDecl) (e : Emitter) :
    Except BuildError Emitter :=
  if m.kind == .constructor then
    match c.baseConstructor? with
    | some base => .ok (((e.loadArg 0).emitMethod .call base).emit .ret)
    | none => .ok (e.emit .ret)
  else if m.returnType = .void then .ok (e.emit .ret)
  else
    match e.loadDefault m.returnType with
    | .ok e => .ok (e.emit .ret)
    | .error error => .error (.emission error)

end BodyContext

namespace Body

/-- Whether the body comes from a generator of the caller's own. -/
def isGenerated : Body ρ → Bool
  | minimal => false
  | generate _ => true

/-- Emits the body of a method. -/
def emit (body : Body ρ) (c : BodyContext) (m : MethodDecl) (e : Emitter) :
    Except BuildError (Emitter × List ρ) :=
  match body with
  | generate f => f c e
  | minimal => return (← c.emitMinimal m e, [])

end Body

end ManagedCode
