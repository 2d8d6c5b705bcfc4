import ManagedCode.Assembly.Search

/-!
# Laying out types

What a type becomes when it is realized: each field gets a slot, each virtual
method a slot of the method table, and each interface method an implementation.
The base class and the interfaces have been realized before.
-/

namespace ManagedCode

/-- The slots given so far while the fields of a type are laid out. -/
structure FieldLayout where
  fields : List RealizedField
  instanceDefaults : List Value
  staticDefaults : List Value

/-- The methods laid out so far, with the table of virtual methods. -/
structure MethodLayout where
  methods : List RealizedMethod
  vtable : VTable
  typeInitializer : Option MethodRef

namespace FieldLayout

/-- Lays out one more field.  A literal has no slot. -/
def push (l : FieldLayout) (owner : TypeId) (f : FieldDecl) : FieldLayout :=
  let initial := match f.constant with
    | some c => (Value.ofConstant c).coerceTo f.type
    | none => Value.initial f.type
  let realized (slot : FieldStorage) : RealizedField :=
    { handle := ⟨owner, l.fields.length⟩
      name := f.name
      type := f.type
      attributes := f.attributes
      slot := slot
      constant := f.constant }
  if f.attributes.isLiteral then
    { l with fields := l.fields ++ [realized .literal] }
  else if f.isStatic then
    { l with
      fields := l.fields ++ [realized (.static l.staticDefaults.length)]
      staticDefaults := l.staticDefaults ++ [initial] }
  else
    { l with
      fields := l.fields ++ [realized (.instance l.instanceDefaults.length)]
      instanceDefaults := l.instanceDefaults ++ [initial] }

/-- Lays out the fields of a type behind those of its base. -/
def ofFields (owner : TypeId) (inherited : List Value) (fields : List FieldDecl) :
    FieldLayout :=
  fields.foldl (·.push owner ·) ⟨[], inherited, []⟩

end FieldLayout

namespace Workspace

/-- The refusal of a type that cannot be laid out. -/
def invalidType (owner reason : String) : Except BuildError α :=
  .error (.invalidMember owner reason)

/-- The slot of the base method that a method takes over, if it does. -/
def inheritedSlot? (w : Workspace) (m : MethodDecl) : Option Nat :=
  if m.attributes.newSlot then none
  else do
    let base ← m.baseSlot
    let t ← w.session.realized? base.owner
    let method ← t.method? base.index
    method.vtableSlot

/-- Gives a virtual method the slot that it takes over, or one of its own. -/
def placeVirtual (w : Workspace) (owner : String) (vtable : VTable) (handle : MethodRef)
    (m : MethodDecl) : Except BuildError (Nat × VTable) :=
  match w.inheritedSlot? m with
  | none => .ok (vtable.add handle)
  | some slot =>
    match vtable.override slot handle with
    | .ok vtable => .ok (slot, vtable)
    | .error reason => invalidType owner reason

/-- Lays out one more method of a type. -/
def layoutMethod (w : Workspace) (d : TypeDecl) (l : MethodLayout) (m : MethodDecl) :
    Except BuildError MethodLayout := do
  let handle := d.methodRef l.methods.length
  let isClass := d.handle.kind == .classType
  if !m.isAbstract && m.body.isNone then
    invalidType d.fullName ("method '" ++ m.name ++ "' has no body")
  else if m.isAbstract && isClass && !d.attributes.isAbstract then
    invalidType d.fullName ("abstract method '" ++ m.name ++ "' in a non-abstract type")
  else
    let (slot, vtable) ←
      if isClass && m.attributes.isVirtual && !m.isStatic then do
        let (slot, vtable) ← w.placeVirtual d.fullName l.vtable handle m
        pure (some slot, vtable)
      else pure (none, l.vtable)
    let method : RealizedMethod :=
      { handle := handle
        name := m.name
        kind := m.kind
        attributes := m.attributes
        params := m.params
        returnType := m.returnType
        genericParams := m.genericParams
        body := m.body
        vtableSlot := slot
        overrides := m.overrides
        customAttributes := m.customAttributes }
    return {
      methods := l.methods ++ [method]
      vtable := vtable
      typeInitializer := if m.kind == .typeInitializer then some handle else l.typeInitializer }

/-- The implementation of an interface method: an explicit one, a public method of
the type with the same signature, the one that the base class has, or a public
method of a base class with the same signature. -/
def implementationOf (w : Workspace) (methods : List RealizedMethod)
    (map : List (MethodRef × MethodRef)) (bases : List TypeId) (contract : RealizedMethod) :
    Option MethodRef :=
  let public? (ms : List RealizedMethod) : Option MethodRef :=
    (ms.find? fun m => m.attributes.isPublic && m.fulfils contract).map (·.handle)
  ((methods.find? (·.overrides == some contract.handle)).map (·.handle))
    <|> public? methods
    <|> map.lookup contract.handle
    <|> bases.findSome? fun base => (w.session.realized? base).bind fun t => public? t.methods

/-- Sets the implementation of an interface method. -/
def mapTo (map : List (MethodRef × MethodRef)) (contract implementation : MethodRef) :
    List (MethodRef × MethodRef) :=
  (contract, implementation) :: map.filter (·.1 != contract)

/-- Maps the methods of one interface. -/
def implementOne (w : Workspace) (d : TypeDecl) (methods : List RealizedMethod)
    (bases : List TypeId) (interface : RealizedType) :
    List (MethodRef × MethodRef) → List RealizedMethod →
      Except BuildError (List (MethodRef × MethodRef))
  | map, [] => .ok map
  | map, contract :: rest =>
    if contract.kind.isConstructor || contract.isStatic then
      w.implementOne d methods bases interface map rest
    else
      match w.implementationOf methods map bases contract with
      | some m => w.implementOne d methods bases interface (mapTo map contract.handle m) rest
      | none =>
        if w.session.verifyImplementations && !d.attributes.isAbstract then
          invalidType d.fullName
            ("interface method '" ++ interface.fullName ++ "." ++ contract.name
              ++ "' is not implemented")
        else w.implementOne d methods bases interface map rest

/-- Maps the methods of the given interfaces, in order. -/
def implementAll (w : Workspace) (d : TypeDecl) (methods : List RealizedMethod)
    (bases : List TypeId) :
    List (MethodRef × MethodRef) → List TypeId → Except BuildError (List (MethodRef × MethodRef))
  | map, [] => .ok map
  | map, id :: rest => do
    match w.session.realized? id with
    | none => .error (.unknownType id)
    | some interface =>
      let map ← w.implementOne d methods bases interface map interface.methods
      w.implementAll d methods bases map rest

/-- The first slot that holds an abstract method, with the method's name.  `own` are
the methods of the type that is being realized. -/
def abstractSlot? (w : Workspace) (id : TypeId) (own : List RealizedMethod) (vtable : VTable) :
    Option (String × Nat) :=
  (vtable.methods.mapIdx fun slot m => (slot, m)).findSome? fun (slot, m) =>
    let method := if m.owner == id then own[m.index]?
      else (w.session.realized? m.owner).bind (·.method? m.index)
    (method.filter (·.isAbstract)).map fun method => (method.name, slot)

/-- The base that a type is laid out behind, which has to be realized and must not be
sealed. -/
def layoutBase (w : Workspace) (d : TypeDecl) : Except BuildError (Option RealizedType) :=
  match d.baseId? with
  | none => .ok none
  | some b =>
    match w.session.realized? b with
    | none => .error (.unknownType b)
    | some t =>
      if t.attributes.isSealed then
        invalidType d.fullName ("cannot derive from sealed type '" ++ t.fullName ++ "'")
      else .ok (some t)

/-- All interfaces of a type with the implementations of their methods.  Only a class
implements anything. -/
def layoutInterfaces (w : Workspace) (d : TypeDecl) (methods : List RealizedMethod)
    (inherited : List (MethodRef × MethodRef)) :
    Except BuildError (List TypeId × List (MethodRef × MethodRef)) := do
  if d.handle.kind == .classType then
    let interfaces ← w.allInterfaces d.id
    let bases ← w.bases d.id
    let map ← w.implementAll d methods bases inherited interfaces
    return (interfaces, map)
  else
    let interfaces ← w.inheritedInterfaces d.interfaceIds
    return (interfaces, inherited)

/-- A class that can be instantiated leaves no slot to an abstract method. -/
def checkSlots (w : Workspace) (d : TypeDecl) (l : MethodLayout) : Except BuildError Unit :=
  if d.handle.kind == .classType && !d.attributes.isAbstract
      && w.session.verifyImplementations then
    match w.abstractSlot? d.id l.methods l.vtable with
    | some (name, slot) =>
      invalidType d.fullName
        ("inherited abstract method '" ++ name ++ "' (slot " ++ toString slot
          ++ ") is not implemented")
    | none => .ok ()
  else .ok ()

/-- The realized form of a type whose base and interfaces are realized. -/
def layoutType (w : Workspace) (id : TypeId) : Except BuildError RealizedType := do
  let d ← w.assembly.decl id
  let base ← w.layoutBase d
  let inherited {α : Type} (f : RealizedType → List α) : List α := (base.map f).getD []
  let fields := FieldLayout.ofFields id (inherited (·.instanceDefaults)) d.fields
  let methods ← d.methods.foldlM (w.layoutMethod d)
    ⟨[], (base.map (·.vtable)).getD {}, none⟩
  let (allInterfaces, interfaceMap) ←
    w.layoutInterfaces d methods.methods (inherited (·.interfaceMap))
  w.checkSlots d methods
  return {
    handle := d.handle
    name := d.name
    fullName := d.fullName
    attributes := d.attributes
    base := base.map (·.id)
    interfaces := d.interfaceIds
    allInterfaces := allInterfaces
    enclosing := d.enclosing
    nested := d.nested
    fields := fields.fields
    methods := methods.methods
    properties := d.properties.map fun p =>
      { name := p.name
        type := p.type
        getter := p.getter.map d.methodRef
        setter := p.setter.map d.methodRef
        backingField := p.backingField.map d.fieldRef }
    instanceDefaults := fields.instanceDefaults
    staticDefaults := fields.staticDefaults
    vtable := methods.vtable
    interfaceMap := interfaceMap
    typeInitializer := methods.typeInitializer
    customAttributes := d.customAttributes }

end Workspace

end ManagedCode
