import ManagedCode.Assembly.Members
import ManagedCode.Describe.Member

/-!
# Descriptions of types and units

A type under construction, a realized type, and a finalized unit, with everything
that a host can learn about them without running anything.
-/

namespace ManagedCode

instance : Describe TypeDecl where
  describe d :=
    .record [("id", d.id), ("kind", d.handle.kind.display), ("name", d.name),
      ("full_name", d.fullName), ("vis", d.visibility.name), ("mod", d.modifier.name),
      ("attrs", d.attributes.bits), ("base", d.base), ("interfaces", d.interfaces),
      ("fields", d.fields), ("methods", d.methods), ("properties", d.properties),
      ("members", d.members), ("nested", d.nested), ("enclosing", d.enclosing),
      ("custom", d.customAttributes), ("realized", d.isRealized)]

/-- The default of a slot, which refers to nothing on a heap. -/
def Value.slotDefault (v : Value) : Constant :=
  v.toConstant?.getD .null

/-- The interface map is described in the order of the interface methods. -/
instance : Describe RealizedType where
  describe t :=
    .record [("id", t.id), ("type", t.handle), ("name", t.name), ("full_name", t.fullName),
      ("attrs", t.attributes.bits), ("base", t.base), ("interfaces", t.interfaces),
      ("all_interfaces", t.allInterfaces), ("enclosing", t.enclosing), ("nested", t.nested),
      ("fields", t.fields), ("methods", t.methods), ("properties", t.properties),
      ("instance_defaults", t.instanceDefaults.map Value.slotDefault),
      ("static_defaults", t.staticDefaults.map Value.slotDefault),
      ("vtable", t.vtable.methods),
      ("interface_map", t.interfaceMap.mergeSort fun a b => a.1.precedes b.1),
      ("type_initializer", t.typeInitializer), ("instantiable", t.isInstantiable),
      ("literals", t.literals), ("constructors", t.constructors.map (·.handle)),
      ("custom", t.customAttributes)]

instance : Describe PropertyRef where
  describe p := .list [p.owner, p.index, p.getter, p.setter, p.backingField]

instance : Describe MemberRef where
  describe
    | .method m => m
    | .field f => f

instance : Describe Overridden where
  describe t := .record [("method", t.method), ("origin", t.origin.name), ("sig", t.signature)]

instance : Describe Assembly where
  describe a :=
    .record [("name", a.name), ("module", a.moduleName), ("finalized", a.isFinalized),
      ("types", a.types.length), ("output", a.output),
      ("top_level", a.topLevelTypes.map (·.fullName))]

namespace FinalizedUnit

/-- A finalized unit with the names that its types have in a session. -/
def describeIn (u : FinalizedUnit) (s : Session) : Document :=
  let fullName (h : DefinedType) : Option String := (s.realized? h.id).map (·.fullName)
  .record [("name", u.name), ("module", u.moduleName), ("len", u.types.length),
    ("empty", u.types.isEmpty), ("types", u.types.map fullName),
    ("top_level", u.topLevel.map fullName),
    ("contains_all", u.types.all fun h => u.contains h.id)]

end FinalizedUnit

end ManagedCode
