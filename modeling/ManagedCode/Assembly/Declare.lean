import ManagedCode.Assembly.Search

/-!
# Declaring types

A unit declares classes, interfaces and enumerations under names that are free in
the unit and in the session, at the top level or inside another of its types.  The
base and the interfaces of a type can be changed until the unit is finalized.
-/

namespace ManagedCode

/-- What a caller says of a type that it opens. -/
structure TypeSpec where
  visibility : Visibility := .isPublic
  modifier : Modifier := .standard
  base : Option TypeRef := none
  interfaces : List TypeRef := []
deriving Inhabited

namespace Workspace

/-- What a type keeps as its base: nothing for the root of all classes, and else a
class that is known. -/
def acceptBase (w : Workspace) (owner : String) (base : TypeRef) :
    Except BuildError (Option TypeRef) :=
  match base with
  | .object => .ok none
  | .defined ⟨id, .classType⟩ => do
    let _ ← w.view id
    return some base
  | _ => .error (.invalidMember owner ("base type " ++ base.display ++ " is not a class"))

/-- Only a known interface can be implemented. -/
def acceptInterface (w : Workspace) (owner : String) (interface : TypeRef) :
    Except BuildError Unit :=
  match interface with
  | .defined ⟨id, .interfaceType⟩ => do
    let _ ← w.view id
    return ()
  | _ => .error (.invalidMember owner (interface.display ++ " is not an interface"))

/-- The interfaces of a declaration, each once. -/
def acceptInterfaces (w : Workspace) (owner : String) :
    List TypeRef → List TypeRef → Except BuildError (List TypeRef)
  | accepted, [] => .ok accepted
  | accepted, interface :: rest => do
    w.acceptInterface owner interface
    w.acceptInterfaces owner
      (if accepted.contains interface then accepted else accepted ++ [interface]) rest

/-- The base that a new type of the given kind keeps. -/
def declaredBase (w : Workspace) (fullName : String) (kind : TypeKind) (spec : TypeSpec) :
    Except BuildError (Option TypeRef) :=
  match kind, spec.base with
  | .interfaceType, some _ => .error (.interfaceBase fullName)
  | .classType, some base => w.acceptBase fullName base
  | .enumType underlying, _ =>
    if underlying.isIntegral then .ok none
    else
      .error (.invalidMember fullName
        ("enum underlying type " ++ underlying.name ++ " is not integral"))
  | _, none => .ok none

/-- The full name of a new type. -/
def nestedName (w : Workspace) (name : String) :
    Option TypeId → Except BuildError String
  | some outer => do
    let d ← w.assembly.building outer
    return d.fullName ++ "+" ++ name
  | none => .ok name

/-- What the declaration of a type comes to: its entry, under the next type number. -/
def newType (w : Workspace) (name : String) (kind : TypeKind) (spec : TypeSpec)
    (enclosing : Option TypeId) : Except BuildError TypeDecl := do
  if name.isEmpty then throw (.emptyName "Type")
  if w.assembly.isFinalized then throw (.typeRealized w.assembly.name)
  let fullName ← w.nestedName name enclosing
  if (w.assembly.names.lookup fullName).isSome || w.session.isRegistered fullName then
    throw (.duplicateType fullName)
  let base ← w.declaredBase fullName kind spec
  let interfaces ←
    if kind.isEnum then pure []
    else w.acceptInterfaces fullName [] spec.interfaces
  let modifier := if kind.isInterface then .isAbstract else spec.modifier
  return {
    handle := ⟨w.session.freshTypeId.1, kind⟩
    name := name
    fullName := fullName
    visibility := spec.visibility
    modifier := modifier
    attributes := .of kind spec.visibility modifier enclosing.isSome
    base := base
    interfaces := interfaces
    enclosing := enclosing }

/-- Enters a new type under its number, in the place of one that has the number already, and takes
the number. -/
def enterType (w : Workspace) (d : TypeDecl) : Workspace :=
  { session := w.session.freshTypeId.2
    assembly :=
      { w.assembly with
        types := w.assembly.types.filter (·.id != d.id) ++ [d]
        topLevel := w.assembly.topLevel ++ (if d.enclosing.isSome then [] else [d.id])
        names := w.assembly.names ++ [(d.fullName, d.id)] } }

end Workspace

namespace Build

/-- Declares a type. -/
def declareType (name : String) (kind : TypeKind) (spec : TypeSpec)
    (enclosing : Option TypeId) : Build TypeId := do
  let d ← ask (·.newType name kind spec enclosing)
  modify (·.enterType d)
  match enclosing with
  | some outer => updateType outer fun o => { o with nested := o.nested ++ [d.id] }
  | none => pure ()
  return d.id

/-- Changes the base of a class. -/
def setBase (id : TypeId) (base : TypeRef) : Build Unit := do
  let d ← building id
  match d.handle.kind with
  | .interfaceType => throw (.interfaceBase d.fullName)
  | .enumType _ => throw (.invalidMember d.fullName "enums cannot have a base type")
  | .classType =>
    if base.definedId? = some id then throw (.circularInheritance d.fullName)
    let base ← ask (·.acceptBase d.fullName base)
    updateType id fun d => { d with base := base }

/-- Adds an interface to a class or an interface. -/
def addInterface (id : TypeId) (interface : TypeRef) : Build Unit := do
  let d ← building id
  if d.handle.kind.isEnum then
    throw (.invalidMember d.fullName "enums cannot implement interfaces")
  ask (·.acceptInterface d.fullName interface)
  updateType id fun d =>
    if d.interfaces.contains interface then d
    else { d with interfaces := d.interfaces ++ [interface] }

/-- A type that the unit defines, ready to be added to. -/
def openType (id : TypeId) : Build TypeId := do
  let _ ← ask (·.assembly.decl id)
  return id

/-- A method of a type that the unit defines, reached through that type. -/
def openMethod (id : TypeId) (m : MethodRef) : Build MethodRef := do
  if m.owner ≠ id then
    throw (.invalidMember ((← get).typeName id)
      ("method " ++ m.display ++ " belongs to another type"))
  let _ ← ask (·.methodSignature m)
  return m

end Build

end ManagedCode
