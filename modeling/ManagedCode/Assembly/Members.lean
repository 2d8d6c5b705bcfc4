import ManagedCode.Assembly.Method

/-!
# Defining fields, literals and properties

A property is a getter and a setter with what they need: an automatic property has
a private field behind it, and accessors that load and store that field.  When any
part of a property is refused, all parts defined before it are taken back.
-/

namespace ManagedCode

/-- What a caller says of a field. -/
structure FieldSpec where
  visibility : Visibility := .isPublic
  modifier : Modifier := .standard
  default : Option Constant := none
deriving Inhabited

/-- How a property gets its accessors. -/
inductive Accessors (ρ : Type) where
  | auto (writable : Bool)
  | custom (getter setter : Option (Body ρ))

/-- What a caller says of a property, with the bodies of its accessors. -/
structure PropertySpec (ρ : Type) where
  visibility : Visibility := .isPublic
  modifier : Modifier := .standard
  accessors : Accessors ρ := .auto true

/-- The handle of a property, by the position at which it was declared. -/
structure PropertyRef where
  owner : TypeId
  index : Nat
  getter : Option MethodRef
  setter : Option MethodRef
  backingField : Option FieldRef
deriving DecidableEq, Repr, Inhabited

namespace Primitive

/-- The values that an enumeration over the type can have.  Values of the 64-bit
types are given by their bits. -/
def admits (p : Primitive) (v : Int64) : Bool :=
  let within (low high : Int) : Bool := decide (low ≤ v.toInt ∧ v.toInt ≤ high)
  match p with
  | .i8 => within (-128) 127
  | .i16 => within (-32768) 32767
  | .i32 => within (-2147483648) 2147483647
  | .u8 => within 0 255
  | .u16 | .char => within 0 65535
  | .u32 => within 0 4294967295
  | .i64 | .u64 => true
  | .bool | .f32 | .f64 => false

end Primitive

namespace TypeDecl

/-- Appends a field, among the members as a literal or as a field. -/
def pushField (d : TypeDecl) (f : FieldDecl) : TypeDecl :=
  let index := d.fields.length
  { d with
    fields := d.fields ++ [f]
    members := d.members ++
      [if f.attributes.isLiteral then .enumLiteral index else .field index] }

/-- A type with one property more. -/
def pushProperty (d : TypeDecl) (p : PropertyDecl) : TypeDecl :=
  { d with
    properties := d.properties ++ [p]
    members := d.members ++ [.property d.properties.length] }

/-- Cuts the members back to the given counts. -/
def truncate (d : TypeDecl) (fields methods members : Nat) : TypeDecl :=
  { d with
    fields := d.fields.take fields
    methods := d.methods.take methods
    members := d.members.take members }

end TypeDecl

namespace Body

/-- A body that only depends on where it is emitted. -/
def ofEmitter (f : Emitter → Emitter) : Body ρ :=
  generate fun _ e => .ok (f e, [])

/-- Loads a field and returns it. -/
def loading (f : FieldRef) (static : Bool) : Body ρ :=
  ofEmitter fun e =>
    (if static then e.emitField .ldsfld f
      else (e.emit .firstLdarg).emitField .ldfld f).emit .ret

/-- Stores the last argument into a field and returns. -/
def storing (f : FieldRef) (static : Bool) : Body ρ :=
  ofEmitter fun e =>
    (if static then (e.emit .firstLdarg).emitField .stsfld f
      else ((e.emit .firstLdarg).emit .secondLdarg).emitField .stfld f).emit .ret

end Body

namespace Build

/-- The refusal of a member that the type cannot have. -/
def invalid (id : TypeId) (reason : String) : Build α := do
  throw (.invalidMember ((← get).typeName id) reason)

def pushField (id : TypeId) (f : FieldDecl) : Build FieldRef := do
  let d ← building id
  if d.fields.any (·.name == f.name) then throw (.duplicateMember d.fullName f.name)
  updateType id (·.pushField f)
  return d.fieldRef d.fields.length

/-- Defines a field of a class.  An interface has no fields, and asking for one
defines nothing. -/
def defineField (id : TypeId) (name : String) (t : TypeRef) (spec : FieldSpec) :
    Build (Option FieldRef) := do
  if name.isEmpty then throw (.emptyName "Field")
  let d ← building id
  match d.handle.kind with
  | .interfaceType => return none
  | .enumType _ => invalid id "enums declare literals, not fields"
  | .classType =>
    if t = .void then invalid id ("field '" ++ name ++ "' cannot be void")
    else
      let attributes := FieldAttributes.of spec.visibility spec.modifier
      let f ← pushField id
        { name := name
          type := t
          attributes := { attributes with hasDefault := spec.default.isSome }
          constant := spec.default }
      return some f

/-- Defines a literal of an enumeration; without a value it follows the literal
before it. -/
def defineLiteral (id : TypeId) (name : String) (value : Option Int64) : Build FieldRef := do
  if name.isEmpty then throw (.emptyName "Literal")
  let d ← building id
  match d.handle.kind with
  | .enumType underlying =>
    let v := value.getD d.nextLiteral
    if !underlying.admits v then
      invalid id ("literal '" ++ name ++ "' value " ++ toString v.toInt ++ " does not fit "
        ++ underlying.name)
    else
      let f ← pushField id
        { name := name
          type := .defined d.handle
          attributes := .ofLiteral
          constant := some (.integral v underlying) }
      updateType id fun d => { d with nextLiteral := v + 1 }
      return f
  | _ => invalid id ("literal '" ++ name ++ "' outside of an enum")

/-- The accessors of a property, with the field behind them. -/
structure AccessorBodies (ρ : Type) where
  getter : Option (Body ρ)
  setter : Option (Body ρ)
  field : Option FieldRef

/-- The field behind an automatic property, which no source can name. -/
def backingFieldName (property : String) : String :=
  "<" ++ property ++ ">k__BackingField"

/-- The bodies of the accessors; an automatic property of a class gets its
field. -/
def accessorBodies (id : TypeId) (name : String) (t : TypeRef) (spec : PropertySpec ρ) :
    Build (AccessorBodies ρ) := do
  let d ← building id
  let static := spec.modifier == .isStatic
  match spec.accessors with
  | .auto writable =>
    if d.handle.kind.isInterface then
      return ⟨some .minimal, if writable then some .minimal else none, none⟩
    else
      let fieldSpec : FieldSpec :=
        { visibility := .isPrivate, modifier := if static then .isStatic else .standard }
      match ← defineField id (backingFieldName name) t fieldSpec with
      | none => invalid id "backing field was not created"
      | some f =>
        return ⟨some (.loading f static), if writable then some (.storing f static) else none,
          some f⟩
  | .custom none none => invalid id ("property '" ++ name ++ "' has no accessors")
  | .custom getter setter => return ⟨getter, setter, none⟩

/-- Defines an accessor if there is one. -/
def defineAccessor (id : TypeId) (name : String) (spec : MethodSpec) (kind : MethodKind) :
    Option (Body ρ) → Build (Option MethodRef × List ρ)
  | none => return (none, [])
  | some body => do
    let (m, remarks) ← defineMethod id name spec body kind
    return (some m, remarks)

/-- Defines the parts of a property, then the property. -/
def addProperty (id : TypeId) (name : String) (t : TypeRef) (spec : PropertySpec ρ) :
    Build (PropertyRef × List ρ) := do
  let bodies ← accessorBodies id name t spec
  let getterSpec : MethodSpec :=
    { visibility := spec.visibility
      modifier := spec.modifier
      params := some []
      returnType := some t }
  let setterSpec : MethodSpec :=
    { visibility := spec.visibility
      modifier := spec.modifier
      params := some [{ name := "value", type := t }]
      returnType := some .void }
  let (getter, first) ← defineAccessor id ("get_" ++ name) getterSpec .getter bodies.getter
  let (setter, second) ← defineAccessor id ("set_" ++ name) setterSpec .setter bodies.setter
  let d ← building id
  updateType id (·.pushProperty
    { name := name
      type := t
      getter := getter.map (·.index)
      setter := setter.map (·.index)
      backingField := bodies.field.map (·.index) })
  return (⟨id, d.properties.length, getter, setter, bodies.field⟩, first ++ second)

/-- Defines a property of a class or an interface. -/
def defineProperty (id : TypeId) (name : String) (t : TypeRef) (spec : PropertySpec ρ) :
    Build (PropertyRef × List ρ) := do
  if name.isEmpty then throw (.emptyName "Property")
  let d ← building id
  if d.handle.kind.isEnum then invalid id "enums cannot declare properties"
  else if t = .void then invalid id ("property '" ++ name ++ "' cannot be void")
  else if d.properties.any (·.name == name) then throw (.duplicateMember d.fullName name)
  else
    try addProperty id name t spec
    catch error =>
      updateType id (·.truncate d.fields.length d.methods.length d.members.length)
      throw error

end Build

end ManagedCode
