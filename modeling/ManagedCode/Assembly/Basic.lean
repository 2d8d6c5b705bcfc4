import ManagedCode.Assembly.Declaration
import ManagedCode.Session

/-!
# Units and workspaces

A unit defines types under a name of its own and finalizes all of them together.
A workspace is a unit with the session that it belongs to: what an operation on
the unit can read and change.

Building operations keep the state in which they fail, so that it is theirs to
undo what they have done so far.
-/

namespace ManagedCode

/-- What finalizing a unit answers: its types in the order in which they were
realized. -/
structure FinalizedUnit where
  name : String
  moduleName : String
  types : List DefinedType
  topLevel : List DefinedType
deriving DecidableEq, Repr, Inhabited

/-- A unit under construction: its declarations in the order in which they were opened, and the
sealed unit once it is finalized. -/
structure Assembly where
  name : String
  moduleName : String
  output : Option String := none
  types : List TypeDecl := []
  topLevel : List TypeId := []
  names : List (String × TypeId) := []
  finalized : Option FinalizedUnit := none
deriving Inhabited

/-- What the operations of a unit read and change: the unit, and the session that it belongs to. -/
structure Workspace where
  session : Session
  assembly : Assembly
deriving Inhabited

/-- An operation on a workspace. -/
abbrev Build (α : Type) := ExceptT BuildError (StateM Workspace) α

namespace FinalizedUnit

/-- Whether a type of the unit has the id. -/
def contains (u : FinalizedUnit) (id : TypeId) : Bool :=
  u.types.any (·.id == id)

end FinalizedUnit

namespace Assembly

/-- A unit that declares nothing yet. -/
def new (name : String) : Assembly :=
  { name := name, moduleName := name }

/-- The declaration with an id, while it has not been withdrawn. -/
def decl? (a : Assembly) (id : TypeId) : Option TypeDecl :=
  a.types.find? (·.id == id)

/-- The type that the unit defines under a full name. -/
def localType? (a : Assembly) (fullName : String) : Option DefinedType :=
  (a.names.lookup fullName).bind fun id => (a.decl? id).map (·.handle)

/-- A finalized unit takes no further declarations. -/
def isFinalized (a : Assembly) : Bool :=
  a.finalized.isSome

/-- The types that are nested in no other, in order of declaration. -/
def topLevelTypes (a : Assembly) : List TypeDecl :=
  a.topLevel.filterMap a.decl?

/-- Changes the declaration of one type. -/
def update (a : Assembly) (id : TypeId) (f : TypeDecl → TypeDecl) : Assembly :=
  { a with types := a.types.map fun d => if d.id == id then f d else d }

/-- The declaration of a type that the unit defines. -/
def decl (a : Assembly) (id : TypeId) : Except BuildError TypeDecl :=
  match a.decl? id with
  | some d => .ok d
  | none => .error (.unknownType id)

/-- The declaration of a type that can still be changed. -/
def building (a : Assembly) (id : TypeId) : Except BuildError TypeDecl := do
  let d ← a.decl id
  if d.isRealized then .error (.typeRealized d.fullName) else .ok d

end Assembly

namespace Build

/-- Reads something from the workspace, or fails. -/
def ask (f : Workspace → Except BuildError α) : Build α := do
  match f (← get) with
  | .ok a => pure a
  | .error error => throw error

/-- The declaration of a type that can still be changed. -/
def building (id : TypeId) : Build TypeDecl :=
  ask fun w => w.assembly.building id

/-- A change of one declaration of the unit. -/
def updateType (id : TypeId) (f : TypeDecl → TypeDecl) : Build Unit :=
  modify fun w => { w with assembly := w.assembly.update id f }

end Build

end ManagedCode
