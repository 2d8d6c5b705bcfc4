import ManagedCode.Assembly.Declaration
import ManagedCode.Describe.Code
import ManagedCode.Realized

/-!
# Descriptions of members

Signatures, and the members of types as they are under construction and as they are
realized.
-/

namespace ManagedCode

/-- A parameter is described by a list: name, type, default, and whether it is an
output. -/
instance : Describe Parameter where
  describe p := .list [p.name, p.type, .under "default" p.default, p.isOut]

instance : Describe MethodSignature where
  describe m :=
    .record [("handle", m.handle), ("name", m.name), ("kind", m.kind.name),
      ("attrs", m.attributes.bits), ("params", m.params), ("param_names", m.paramNames),
      ("returns", m.returnType), ("generics", m.genericParams), ("static", m.isStatic),
      ("virtual", m.isVirtual), ("final", m.isFinal)]

instance : Describe FieldSignature where
  describe f :=
    .record [("handle", f.handle), ("name", f.name), ("ty", f.type),
      ("attrs", f.attributes.bits), ("static", f.attributes.isStatic)]

/-- The number of instructions of a body that is there. -/
def MethodBody.instructionCount? (b : Option MethodBody) : Option Nat :=
  b.map (·.instructions.size)

/-! ## Members under construction -/

instance : Describe Member where
  describe
    | .field i => .list ["Field", i]
    | .property i => .list ["Property", i]
    | .method i => .list ["Method", i]
    | .constructor i => .list ["Constructor", i]
    | .enumLiteral i => .list ["EnumLiteral", i]
    | .genericParam m position name => .list ["GenericParameter", m, position, name]

instance : Describe FieldDecl where
  describe f :=
    .record [("name", f.name), ("ty", f.type), ("attrs", f.attributes.bits),
      ("static", f.isStatic), ("constant", .under "value" f.constant)]

instance : Describe MethodDecl where
  describe m :=
    .record [("name", m.name), ("kind", m.kind.name), ("attrs", m.attributes.bits),
      ("params", m.params), ("returns", m.returnType), ("generics", m.genericParams),
      ("body", MethodBody.instructionCount? m.body), ("overrides", m.overrides),
      ("base_slot", m.baseSlot), ("custom", m.customAttributes), ("static", m.isStatic),
      ("abstract", m.isAbstract)]

instance : Describe PropertyDecl where
  describe p := .list [p.name, p.type, p.getter, p.setter, p.backingField]

/-! ## Realized members -/

instance : Describe FieldStorage where
  describe
    | .instance i => .list ["Instance", i]
    | .static i => .list ["Static", i]
    | .literal => .list ["Literal"]

instance : Describe RealizedField where
  describe f :=
    .record [("handle", f.handle), ("name", f.name), ("ty", f.type),
      ("attrs", f.attributes.bits), ("slot", f.slot), ("literal", f.isLiteral),
      ("constant", .under "value" f.constant)]

instance : Describe RealizedMethod where
  describe m :=
    .record [("handle", m.handle), ("name", m.name), ("kind", m.kind.name),
      ("attrs", m.attributes.bits), ("params", m.params), ("returns", m.returnType),
      ("generics", m.genericParams), ("body", MethodBody.instructionCount? m.body),
      ("slot", m.vtableSlot), ("overrides", m.overrides), ("custom", m.customAttributes),
      ("static", m.isStatic), ("virtual", m.isVirtual), ("abstract", m.isAbstract)]

instance : Describe RealizedProperty where
  describe p := .list [p.name, p.type, p.getter, p.setter, p.backingField]

end ManagedCode
