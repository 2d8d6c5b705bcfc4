import ManagedCode.Assembly.Layout

/-!
# Finalizing units

Finalizing realizes every type of a unit: a type after its base and its
interfaces, and a nested type before the type around it unless it depends on that
type.  When any type is refused, the types realized so far are withdrawn, and the
unit is open again.
-/

namespace ManagedCode

/-- The progress of finalizing a unit: the types whose turn has come, and those
that are done, in order. -/
structure Realization where
  workspace : Workspace
  inProgress : List TypeId := []
  done : List DefinedType := []
deriving Inhabited

/-- A step of a realization, which fails as the operation of the unit does. -/
abbrev Realize (α : Type) := ExceptT BuildError (StateM Realization) α

namespace Workspace

/-- Whether a type has another one among its bases or interfaces. -/
def dependsOn (w : Workspace) (id other : TypeId) : Except BuildError Bool := do
  let bases ← w.bases id
  if bases.contains other then return true
  let interfaces ← w.allInterfaces id
  return interfaces.contains other

end Workspace

namespace Realize

/-- A question to the workspace that the realization has come to. -/
def ask (f : Workspace → Except BuildError α) : Realize α := do
  match f (← get).workspace with
  | .ok a => pure a
  | .error error => throw error

/-- Lays a type out, enters it into the session, and ends its turn. -/
def install (id : TypeId) : Realize Unit := do
  let t ← ask (·.layoutType id)
  let session ← ask (·.session.install t)
  modify fun r =>
    { workspace :=
        { session := session
          assembly := r.workspace.assembly.update id fun d => { d with state := .realized } }
      inProgress := r.inProgress.filter (· != id)
      done := r.done ++ [t.handle] }

/-- Splits nested types into those that depend on the type around them and those
that do not, which are visited at once. -/
def visitNested (visit : TypeId → Realize Unit) (outer : TypeId) :
    List TypeId → Realize (List TypeId)
  | [] => return []
  | inner :: rest => do
    let deferred ← ask (·.dependsOn inner outer)
    if !deferred then visit inner
    let others ← visitNested visit outer rest
    return if deferred then inner :: others else others

/-- Realizes a type with everything that comes before it, and the nested types
that come after it.  A type of another unit, or one that is realized already, is
passed over. -/
def realize : Nat → TypeId → Realize Unit
  | 0, _ => pure ()
  | fuel + 1, id => do
    let r ← get
    match r.workspace.assembly.decl? id with
    | none => pure ()
    | some d =>
      if d.isRealized then pure ()
      else if r.inProgress.contains id then throw (.circularInheritance d.fullName)
      else
        set { r with inProgress := id :: r.inProgress }
        (d.baseId?.toList ++ d.interfaceIds).forM (realize fuel)
        let deferred ← visitNested (realize fuel) id d.nested
        install id
        deferred.forM (realize fuel)

end Realize

namespace Workspace

/-- Takes back realized types, the last one first. -/
def withdraw (w : Workspace) (done : List DefinedType) : Workspace :=
  done.reverse.foldl
    (fun w h =>
      { session := w.session.uninstall h.id
        assembly := w.assembly.update h.id fun d => { d with state := .building } })
    w

end Workspace

namespace Build

/-- Realizes every type of the unit, or none.  A unit that is finalized already
gives the same answer again. -/
def finalize : Build FinalizedUnit := do
  let w ← get
  match w.assembly.finalized with
  | some unit => return unit
  | none =>
    let visit := Realize.realize (w.assembly.types.length + 1)
    match (w.assembly.topLevel.forM visit).run.run { workspace := w } with
    | (.error error, r) =>
      set (r.workspace.withdraw r.done)
      throw error
    | (.ok (), r) =>
      let assembly := r.workspace.assembly
      let unit : FinalizedUnit :=
        { name := assembly.name
          moduleName := assembly.moduleName
          types := r.done
          topLevel := assembly.topLevelTypes.map (·.handle) }
      set { r.workspace with assembly := { assembly with finalized := some unit } }
      return unit

end Build

end ManagedCode
