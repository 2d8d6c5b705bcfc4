import ManagedCode.Assembly.BodyContext
import ManagedCode.Attribute.Term

/-!
# Defining methods

A method is first reserved, so that its body can refer to it, and gets its body
when that has been emitted and sealed.  If the body fails, the reservation is
taken back.
-/

namespace ManagedCode

/-- What a caller says of a constructor. -/
structure ConstructorSpec where
  visibility : Visibility := .isPublic
  isStatic : Bool := false
  params : List Parameter := []
deriving Inhabited

namespace ConstructorSpec

/-- The entry of a new constructor, or of the initializer of a type. -/
def entry (spec : ConstructorSpec) : MethodDecl :=
  { name := if spec.isStatic then ".cctor" else ".ctor"
    kind := if spec.isStatic then .typeInitializer else .constructor
    attributes := .ofConstructor spec.visibility spec.isStatic
    params := spec.params
    returnType := .void
    genericParams := [] }

end ConstructorSpec

namespace TypeDecl

/-- Whether a type has a member that a new method cannot stand beside. -/
def hasMethodLike (d : TypeDecl) (m : MethodDecl) : Bool :=
  d.methods.any fun other =>
    other.name == m.name && other.kind.isConstructor == m.kind.isConstructor
      && other.paramTypes == m.paramTypes

/-- Appends a method, with its generic parameters among the members. -/
def pushMethod (d : TypeDecl) (m : MethodDecl) : TypeDecl :=
  let index := d.methods.length
  let entry := if m.kind.isConstructor then Member.constructor index else Member.method index
  { d with
    methods := d.methods ++ [m]
    members := d.members ++ entry
      :: m.genericParams.mapIdx fun position name => .genericParam index position name }

end TypeDecl

namespace Member

/-- Whether an entry belongs to the method at a position. -/
def isOfMethod (index : Nat) : Member → Bool
  | method i => i == index
  | constructor i => i == index
  | genericParam i _ _ => i == index
  | _ => false

end Member

namespace TypeDecl

/-- Takes back the method at a position, if it is the last one. -/
def dropMethod (d : TypeDecl) (index : Nat) : TypeDecl :=
  if d.methods.length = index + 1 then
    { d with
      methods := d.methods.dropLast
      members := d.members.filter (!·.isOfMethod index) }
  else d

/-- A type with a body for one of its methods. -/
def setBody (d : TypeDecl) (index : Nat) (body : MethodBody) : TypeDecl :=
  { d with methods := d.methods.modify index fun m => { m with body := some body } }

end TypeDecl

namespace MethodSpec

/-- The attributes of a method before it is known whether it overrides another one. -/
def declaredAttributes (spec : MethodSpec) (owner : TypeKind) (kind : MethodKind) :
    MethodAttributes :=
  let declared := MethodAttributes.of owner spec.visibility spec.modifier
  if kind == .getter || kind == .setter then { declared with specialName := true } else declared

end MethodSpec

namespace Workspace

/-- The entry of a new method that overrides the given one, if any. -/
def entry (w : Workspace) (owner : TypeKind) (name : String) (spec : MethodSpec)
    (kind : MethodKind) (target : Option Overridden) : MethodDecl :=
  let declared := spec.declaredAttributes owner kind
  let signature := completeSignature spec target
  { name := match target with
      | some t => if spec.isExplicit then w.typeName t.method.owner ++ "." ++ name else name
      | none => name
    kind := kind
    attributes := match target with
      | some t => declared.overriding t.origin spec.modifier
      | none => declared
    params := signature.params
    returnType := signature.returnType
    genericParams := signature.genericParams
    overrides := (target.filter (·.origin == .interface)).map (·.method)
    baseSlot := (target.filter (·.origin == .baseType)).map (·.method) }

/-- What the declaration of a method comes to: its entry, with the method that it
overrides. -/
def declaration (w : Workspace) (owner : TypeId) (name : String) (spec : MethodSpec)
    (kind : MethodKind) : Except BuildError (MethodDecl × Option Overridden) := do
  if name.isEmpty then throw (.emptyName "Method")
  let d ← w.assembly.building owner
  if d.handle.kind.isEnum then
    throw (.invalidMember d.fullName ("enums cannot declare method '" ++ name ++ "'"))
  let declared := spec.declaredAttributes d.handle.kind kind
  let target ←
    if declared.isStatic || d.handle.kind.isInterface then pure none
    else w.findOverridden owner name spec
  if spec.isExplicit && !target.any (·.origin == .interface) then
    throw (.unresolvableMember d.fullName name)
  return (w.entry d.handle.kind name spec kind target, target)

end Workspace

namespace Build

/-- Enters a method without its body. -/
def reserveMethod (owner : TypeId) (m : MethodDecl) : Build MethodRef := do
  let d ← building owner
  if d.hasMethodLike m then throw (.duplicateMember d.fullName m.name)
  updateType owner (·.pushMethod m)
  return d.methodRef d.methods.length

/-- The declaration of a method. -/
def methodDecl (w : Workspace) (m : MethodRef) : Except BuildError MethodDecl := do
  let d ← w.assembly.decl m.owner
  match d.methods[m.index]? with
  | some method => return method
  | none => .error (.unresolvableMember d.fullName m.display)

/-- Emits and seals the body of a reserved method. -/
def emitBody (w : Workspace) (m : MethodRef) (target : Option Overridden)
    (body : Body ρ) : Except BuildError (MethodBody × List ρ) := do
  let d ← w.assembly.decl m.owner
  let method ← methodDecl w m
  let emitter : Emitter :=
    { method := d.fullName ++ "::" ++ method.name, returnsValue := method.returnType != .void }
  let context : BodyContext :=
    { workspace := w, typeId := some m.owner, member := some (.method m), overridden := target }
  let (emitter, remarks) ← body.emit context method emitter
  match (emitter.sealBodyWith w.callEffect?).1 with
  | .ok result => return (result, remarks)
  | .error error => .error (.emission error)

/-- A method of the unit gets its body. -/
def putBody (m : MethodRef) (body : MethodBody) : Build Unit := do
  let _ ← ask (methodDecl · m)
  updateType m.owner (·.setBody m.index body)

/-- Gives a reserved method its body, or takes the reservation back. -/
def completeMethod (m : MethodRef) (target : Option Overridden) (body : Body ρ) :
    Build (MethodRef × List ρ) := do
  match emitBody (← get) m target body with
  | .ok (result, remarks) =>
    putBody m result
    return (m, remarks)
  | .error error =>
    updateType m.owner (·.dropMethod m.index)
    throw error

/-- Defines a method of a class or an interface.  A body given for an abstract
method is not used. -/
def defineMethod (owner : TypeId) (name : String) (spec : MethodSpec) (body : Body ρ)
    (kind : MethodKind) : Build (MethodRef × List ρ) := do
  let (decl, target) ← ask (·.declaration owner name spec kind)
  let m ← reserveMethod owner decl
  if decl.isAbstract then return (m, [])
  completeMethod m target body

/-- Defines a constructor, or the initializer of a type. -/
def defineConstructor (owner : TypeId) (spec : ConstructorSpec) (body : Body ρ) :
    Build (MethodRef × List ρ) := do
  let d ← building owner
  if d.handle.kind != .classType then
    throw (.invalidMember d.fullName "only classes declare constructors")
  if spec.isStatic && !spec.params.isEmpty then
    throw (.invalidMember d.fullName "type initializers take no parameters")
  let m ← reserveMethod owner spec.entry
  completeMethod m none body

/-- The method that a defined method overrides. -/
def overriddenOf (w : Workspace) (m : MethodDecl) :
    Except BuildError (Option Overridden) := do
  match m.overrides, m.baseSlot with
  | some method, _ => return some ⟨method, .interface, ← w.methodSignature method⟩
  | none, some method => return some ⟨method, .baseType, ← w.methodSignature method⟩
  | none, none => return none

/-- The declaration of a method that can still be changed. -/
def buildingMethod (m : MethodRef) : Build MethodDecl := do
  let d ← building m.owner
  match d.methods[m.index]? with
  | some method => return method
  | none => throw (.unresolvableMember d.fullName m.display)

/-- Gives a method another body. -/
def replaceBody (m : MethodRef) (body : Body ρ) : Build (List ρ) := do
  let method ← buildingMethod m
  let w ← get
  if method.isAbstract then
    throw (.invalidMember (w.typeName m.owner)
      ("abstract method '" ++ method.name ++ "' has no body"))
  let target ← ask (overriddenOf · method)
  let (result, remarks) ← ask (emitBody · m target body)
  putBody m result
  return remarks

/-- Attaches a custom attribute to a method. -/
def setMethodAttribute (m : MethodRef) (custom : CustomAttribute) : Build Unit := do
  let _ ← buildingMethod m
  updateType m.owner fun d =>
    { d with
      methods := d.methods.modify m.index fun method =>
        { method with customAttributes := method.customAttributes ++ [custom] } }

/-- Attaches a custom attribute to a type. -/
def setTypeAttribute (id : TypeId) (custom : CustomAttribute) : Build Unit := do
  let _ ← building id
  updateType id fun d => { d with customAttributes := d.customAttributes ++ [custom] }

/-- Compiles an attribute expression in the session; answers the attribute and the
getters called. -/
def compileAttribute (e : AttributeTerm) : Build (CustomAttribute × List String) := do
  let w ← get
  match (e.compile (some w.session)).run.run [] with
  | (.ok custom, getters) => return (custom, getters)
  | (.error error, _) => throw (.attributeFault error)

end Build

end ManagedCode
