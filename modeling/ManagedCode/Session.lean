import ManagedCode.Assembly.Error
import ManagedCode.Realized

/-!
# Sessions

What the units and machines of one session share: the registry of type names, the
realized types, and the next type number.

`Session.lineage` follows base links from a type.  Types are realized after their
bases, so the links of realized types never form a cycle.
-/

namespace ManagedCode

/-- The names and the realized types that units share, and the number of ids given out. -/
structure Session where
  /-- Whether a class that can be instantiated has to implement everything. -/
  verifyImplementations : Bool := true
  registry : List (String × DefinedType) := []
  types : List RealizedType := []
  /-- The number that the next type gets.  A program counts it in 32 bits, which start over behind
  the last one; no number comes a second time before (`Session.Numbered`). -/
  nextTypeId : Nat := 1
deriving Inhabited

namespace Session

/-- The type that has a name, from the moment at which it is opened. -/
def resolveType? (s : Session) (fullName : String) : Option DefinedType :=
  s.registry.lookup fullName

/-- Whether a type has the name. -/
def isRegistered (s : Session) (fullName : String) : Bool :=
  (s.resolveType? fullName).isSome

/-- Registers a name that is free. -/
def register (s : Session) (fullName : String) (handle : DefinedType) : Except BuildError Session :=
  if s.isRegistered fullName then .error (.duplicateType fullName)
  else .ok { s with registry := s.registry ++ [(fullName, handle)] }

/-- The realized type with an id. -/
def realized? (s : Session) (id : TypeId) : Option RealizedType :=
  s.types.find? (·.id == id)

/-- The realized type with a name. -/
def realizedByName? (s : Session) (fullName : String) : Option RealizedType :=
  (s.resolveType? fullName).bind fun h => s.realized? h.id

/-- The type that a registered name stands for. -/
def typeRef (s : Session) (fullName : String) : Except BuildError TypeRef :=
  match s.resolveType? fullName with
  | some h => .ok (.defined h)
  | none => .error (.unresolvableMember "session" fullName)

/-- Registers a type's name and enters the type under its number, in the place of one that has the
number already. -/
def install (s : Session) (t : RealizedType) : Except BuildError Session := do
  let s ← s.register t.fullName t.handle
  return { s with types := s.types.filter (·.id != t.id) ++ [t] }

/-- Takes back a realized type and its name. -/
def uninstall (s : Session) (id : TypeId) : Session :=
  match s.realized? id with
  | none => s
  | some t =>
    { s with
      types := s.types.filter (·.id != id)
      registry := s.registry.filter (·.1 != t.fullName) }

/-- Forgets every name and every realized type; type numbers are not used
again. -/
def clear (s : Session) : Session :=
  { s with registry := [], types := [] }

/-- Fewer than `2 ^ 32 - 1` types have been declared, so 32 bits hold the number of each of them and
the next one. -/
def Numbered (s : Session) : Prop :=
  s.nextTypeId < UInt32.size

instance (s : Session) : Decidable s.Numbered :=
  inferInstanceAs (Decidable (_ < _))

/-- Hands out a type number. -/
def freshTypeId (s : Session) : TypeId × Session :=
  (⟨s.nextTypeId⟩, { s with nextTypeId := s.nextTypeId + 1 })

/-- In 32 bits, the numbers that are handed out are those of a counter that starts over. -/
theorem bits_freshTypeId (s : Session) :
  s.freshTypeId.1.bits = .ofNat s.nextTypeId
  ∧ UInt32.ofNat s.freshTypeId.2.nextTypeId = .ofNat s.nextTypeId + 1
  :=
  ⟨rfl, UInt32.ofNat_add _ _⟩

/-- The name of a realized type, or the number of another one. -/
def typeName (s : Session) (id : TypeId) : String :=
  match s.realized? id with
  | some t => t.fullName
  | none => id.display

/-- The realized types met by following base links, and the link, if any, that
leads to no realized type. -/
structure Lineage where
  types : List RealizedType
  missing : Option TypeId

/-- The types along base links, at most as many as the first argument allows. -/
def lineageFrom (s : Session) : Nat → TypeId → Lineage
  | 0, _ => ⟨[], none⟩
  | fuel + 1, id =>
    match s.realized? id with
    | none => ⟨[], some id⟩
    | some t =>
      match t.base with
      | none => ⟨[t], none⟩
      | some base =>
        let rest := s.lineageFrom fuel base
        ⟨t :: rest.types, rest.missing⟩

/-- A type with its bases, the most derived first. -/
def lineage (s : Session) (id : TypeId) : Lineage :=
  s.lineageFrom (s.types.length + 1) id

/-- Whether a type is the target, implements it, or derives from such a type. -/
def reaches (s : Session) (id target : TypeId) : Bool :=
  let line := s.lineage id
  line.types.any (fun t => t.id == target || t.implements target)
    || line.missing == some target

/-- The refusal of a member that no search has found. -/
def unresolvable (s : Session) (id : TypeId) (member : String) : BuildError :=
  .unresolvableMember (s.typeName id) member

/-- The first answer along base links. -/
def findOnLineage (s : Session) (id : TypeId) (f : RealizedType → Option α) :
    Except TypeId (Option α) :=
  let line := s.lineage id
  match line.types.findSome? f, line.missing with
  | some found, _ => .ok (some found)
  | none, some missing => .error missing
  | none, none => .ok none

/-- A member of a type, or the first one on its base links. -/
def findMember (s : Session) (id : TypeId) (member : String) (f : RealizedType → Option α) :
    Except BuildError α :=
  match s.findOnLineage id f with
  | .ok (some found) => .ok found
  | .ok none => .error (s.unresolvable id member)
  | .error missing => .error (.unknownType missing)

/-- A method of a type, or the first one on its base links. -/
def findMethod (s : Session) (id : TypeId) (name : String) (params : Option (List TypeRef)) :
    Except BuildError MethodSignature :=
  s.findMember id name fun t => (t.findMethod? name params).map (·.sig)

/-- A field of a type, or the first one on its base links. -/
def findField (s : Session) (id : TypeId) (name : String) : Except BuildError FieldSignature :=
  s.findMember id name fun t => (t.findField? name).map (·.sig)

/-- A constructor in an error: its parameters are its name. -/
def constructorName (params : List TypeRef) : String :=
  ".ctor/" ++ toString params.length

/-- A constructor of a type, which no type inherits. -/
def findConstructor (s : Session) (id : TypeId) (params : List TypeRef) :
    Except BuildError MethodSignature :=
  match s.realized? id with
  | none => .error (.unknownType id)
  | some t =>
    match t.constructor? params with
    | some m => .ok m.sig
    | none => .error (s.unresolvable id (constructorName params))

end Session

end ManagedCode
