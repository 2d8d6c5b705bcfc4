import ManagedCode.Assembly.Basic

/-!
# Looking types and members up

A unit sees the types that it defines, as they are so far, and the realized types
of its session.  Base links and interface links may form cycles until the unit is
finalized: following base links stops with an error at the first type met again,
and collecting interfaces visits each type once.
-/

namespace ManagedCode

/-- What a lookup needs to know about a type. -/
structure TypeView where
  handle : DefinedType
  name : String
  base : Option TypeId
  interfaces : List TypeId
  methods : List MethodSignature
  fields : List FieldSignature
deriving Inhabited

namespace TypeView

/-- What a search sees of a type under construction. -/
def ofDecl (d : TypeDecl) : TypeView :=
  { handle := d.handle
    name := d.fullName
    base := d.baseId?
    interfaces := d.interfaceIds
    methods := d.methods.mapIdx fun i m => m.sig (d.methodRef i)
    fields := d.fields.mapIdx fun i f => f.sig (d.fieldRef i) }

/-- What a search sees of a realized type. -/
def ofRealized (t : RealizedType) : TypeView :=
  { handle := t.handle
    name := t.fullName
    base := t.base
    interfaces := t.interfaces
    methods := t.methods.map (·.sig)
    fields := t.fields.map (·.sig) }

end TypeView

namespace Workspace

/-- A type as a search sees it: the declaration if the unit has one, and the realized type
otherwise. -/
def view? (w : Workspace) (id : TypeId) : Option TypeView :=
  match w.assembly.decl? id with
  | some d => some (.ofDecl d)
  | none => (w.session.realized? id).map .ofRealized

/-- A type as a search sees it, or the refusal of an unknown one. -/
def view (w : Workspace) (id : TypeId) : Except BuildError TypeView :=
  match w.view? id with
  | some s => .ok s
  | none => .error (.unknownType id)

/-- The full name of a type, or the number of an unknown one. -/
def typeName (w : Workspace) (id : TypeId) : String :=
  match w.view? id with
  | some s => s.name
  | none => id.display

/-- The refusal of a member that no search has found. -/
def unresolvable (w : Workspace) (id : TypeId) (member : String) : BuildError :=
  .unresolvableMember (w.typeName id) member

/-- How many types a unit can see, counting those twice that it has realized. -/
def typeCount (w : Workspace) : Nat :=
  w.assembly.types.length + w.session.types.length

/-- Follows base links from `current`; `seen` are the types met before. -/
def basesFrom (w : Workspace) (start : TypeId) :
    Nat → List TypeId → Option TypeId → Except BuildError (List TypeId)
  | _, _, none => .ok []
  | 0, _, some _ => .error (.circularInheritance (w.typeName start))
  | fuel + 1, seen, some current =>
    if seen.contains current then .error (.circularInheritance (w.typeName start))
    else do
      let s ← w.view current
      let rest ← w.basesFrom start fuel (current :: seen) s.base
      return current :: rest

/-- The base classes of a type, the nearest first. -/
def bases (w : Workspace) (id : TypeId) : Except BuildError (List TypeId) := do
  let s ← w.view id
  w.basesFrom id (w.typeCount + 1) [id] s.base

/-- How often the search for interfaces can meet a type: once for each link. -/
def interfaceLinks (w : Workspace) : Nat :=
  (w.assembly.types.flatMap (·.interfaces)).length
    + (w.session.types.flatMap (·.interfaces)).length

/-- Visits the pending types in order, each followed by its own interfaces. -/
def inheritedInterfacesFrom (w : Workspace) :
    Nat → List TypeId → List TypeId → Except BuildError (List TypeId)
  | _, _, [] => .ok []
  | 0, _, _ :: _ => .ok []
  | fuel + 1, seen, id :: pending =>
    if seen.contains id then w.inheritedInterfacesFrom fuel seen pending
    else do
      let s ← w.view id
      let rest ← w.inheritedInterfacesFrom fuel (id :: seen) (s.interfaces ++ pending)
      return id :: rest

/-- The given types and the interfaces that they inherit, each once. -/
def inheritedInterfaces (w : Workspace) (roots : List TypeId) : Except BuildError (List TypeId) :=
  w.inheritedInterfacesFrom (roots.length + w.interfaceLinks) [] roots

/-- Every interface that a type or one of its bases implements. -/
def allInterfaces (w : Workspace) (id : TypeId) : Except BuildError (List TypeId) := do
  let s ← w.view id
  let bases ← w.bases id
  let inherited ← bases.mapM fun base => return (← w.view base).interfaces
  w.inheritedInterfaces (s.interfaces ++ inherited.flatten)

/-- The first answer among the views of the given types. -/
def findIn (w : Workspace) (f : TypeView → Option α) :
    List TypeId → Except BuildError (Option α)
  | [] => .ok none
  | id :: rest => do
    let s ← w.view id
    match f s with
    | some found => return some found
    | none => w.findIn f rest

/-- A method by name and, where given, by parameter types: on a type, on its bases,
and for an interface also on the interfaces that it inherits. -/
def findMethod (w : Workspace) (id : TypeId) (name : String) (params : Option (List TypeRef)) :
    Except BuildError MethodSignature := do
  let pick (s : TypeView) := s.methods.find? (·.isMatch name params none)
  let bases ← w.bases id
  match ← w.findIn pick (id :: bases) with
  | some m => return m
  | none =>
    let s ← w.view id
    let inherited ← if s.handle.kind.isInterface then w.inheritedInterfaces [id] else .ok []
    match ← w.findIn pick inherited with
    | some m => return m
    | none => .error (w.unresolvable id name)

/-- A field by name: on a type or the nearest of its bases. -/
def findField (w : Workspace) (id : TypeId) (name : String) : Except BuildError FieldSignature := do
  let bases ← w.bases id
  match ← w.findIn (fun s => s.fields.find? (·.name == name)) (id :: bases) with
  | some f => return f
  | none => .error (w.unresolvable id name)

/-- A constructor of a type itself, by parameter types. -/
def findConstructor (w : Workspace) (id : TypeId) (params : List TypeRef) :
    Except BuildError MethodSignature := do
  let s ← w.view id
  match s.methods.find? fun m => m.kind == .constructor && m.params == params with
  | some m => return m
  | none => .error (w.unresolvable id (Session.constructorName params))

/-- The signature of a method that a handle names. -/
def methodSignature (w : Workspace) (m : MethodRef) : Except BuildError MethodSignature := do
  let s ← w.view m.owner
  match s.methods[m.index]? with
  | some sig => return sig
  | none => .error (w.unresolvable m.owner m.display)

/-- The signature of a field that a handle names. -/
def fieldSignature (w : Workspace) (f : FieldRef) : Except BuildError FieldSignature := do
  let s ← w.view f.owner
  match s.fields[f.index]? with
  | some sig => return sig
  | none => .error (w.unresolvable f.owner f.display)

/-- The effect of a call to a method that the unit can see. -/
def callEffect? (w : Workspace) (op : Opcode) (m : MethodRef) : Option CallEffect :=
  (w.methodSignature m).toOption.map (·.callEffect op)

end Workspace

end ManagedCode
