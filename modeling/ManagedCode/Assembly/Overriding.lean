import ManagedCode.Assembly.Search

/-!
# Overriding

Which base method or interface method a new method overrides, and which signature
it gets from that method where the declaration leaves it open.
-/

namespace ManagedCode

/-- What a declaration asks of a method; parameters and return type may be left
open. -/
structure MethodSpec where
  visibility : Visibility := .isPublic
  modifier : Modifier := .standard
  params : Option (List Parameter) := none
  returnType : Option TypeRef := none
  genericParams : List String := []
deriving Inhabited

/-- The method that a new method overrides. -/
structure Overridden where
  method : MethodRef
  origin : OverrideSource
  signature : MethodSignature
deriving Inhabited

/-- The signature that a new method gets. -/
structure CompletedSignature where
  params : List Parameter
  returnType : TypeRef
  genericParams : List String
deriving Inhabited

namespace MethodSpec

/-- The types of the parameters, if the caller has given them. -/
def paramTypes (c : MethodSpec) : Option (List TypeRef) :=
  c.params.map (·.map (·.type))

/-- Whether the caller has named the method that this one is for. -/
def isExplicit (c : MethodSpec) : Bool :=
  c.modifier == .explicitImplementation

/-- A type of an overridden method as the declaration takes it over: with the generic
parameters renamed by position when the declaration has as many of its own. -/
def adopt (c : MethodSpec) (sig : MethodSignature) (t : TypeRef) : TypeRef :=
  if !c.genericParams.isEmpty && c.genericParams.length == sig.genericParams.length then
    t.substitute sig.genericParams (c.genericParams.map .generic)
  else t

end MethodSpec

namespace Workspace

/-- The method of the nearest base class that a declaration overrides.  A base
method that matches has to be virtual and not final. -/
def overriddenBase (w : Workspace) (name : String) (spec : MethodSpec) :
    List TypeId → Except BuildError (Option Overridden)
  | [] => .ok none
  | base :: rest => do
    let s ← w.view base
    let found := s.methods.find? fun m =>
      !m.isStatic && m.isMatch name spec.paramTypes spec.returnType
    match found with
    | none => w.overriddenBase name spec rest
    | some m =>
      if !m.isVirtual || m.isFinal then .error (.notOverridable s.name name)
      else return some ⟨m.handle, .baseType, m⟩

/-- The method of the first interface that a declaration implements, by name and
number of parameters. -/
def implementedInterface (w : Workspace) (name : String) (spec : MethodSpec)
    (interfaces : List TypeId) : Except BuildError (Option Overridden) := do
  let pick (s : TypeView) := s.methods.find? fun m =>
    m.name == name && !m.kind.isConstructor
      && spec.params.all (·.length == m.params.length)
  let found ← w.findIn pick interfaces
  return found.map fun m => ⟨m.handle, .interface, m⟩

/-- The method that a declaration on a class overrides.  An explicit implementation
looks at interfaces only, every other declaration at base classes first. -/
def findOverridden (w : Workspace) (owner : TypeId) (name : String) (spec : MethodSpec) :
    Except BuildError (Option Overridden) := do
  let fromBase ← if spec.isExplicit then .ok none else do
    let bases ← w.bases owner
    w.overriddenBase name spec bases
  match fromBase with
  | some target => return some target
  | none =>
    let declared := (← w.view owner).interfaces
    let interfaces ← w.inheritedInterfaces declared
    w.implementedInterface name spec interfaces

end Workspace

/-- The signature of a declaration.  What it leaves open comes from the method that
it overrides. -/
def completeSignature (spec : MethodSpec) (target : Option Overridden) :
    CompletedSignature :=
  match target with
  | none =>
    { params := spec.params.getD []
      returnType := spec.returnType.getD .void
      genericParams := spec.genericParams }
  | some target =>
    let sig := target.signature
    { params := spec.params.getD
        ((sig.params.zip sig.paramNames).map fun (t, name) =>
          { name := name, type := spec.adopt sig t })
      returnType := spec.returnType.getD (spec.adopt sig sig.returnType)
      genericParams :=
        if spec.genericParams.isEmpty then sig.genericParams else spec.genericParams }

end ManagedCode
