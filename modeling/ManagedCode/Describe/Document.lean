import ManagedCode.Attribute.Custom
import ManagedCode.Number.Bits

/-!
# Documents

A document is the plain form in which types, members and bodies are described to a
host: numbers, flags and texts, in lists and in records with named fields.  It holds
no references, and two hosts that read the same document know the same.

`Describe` gives the document of a value.  What may be absent is described by its own
document or by nothing, and where the two could be mistaken for each other, by a
record with one field.
-/

namespace ManagedCode

/-- Data in a form that can be read and written. -/
inductive Document where
  | nothing
  | flag (value : Bool)
  | number (value : Int)
  | text (value : String)
  | list (items : List Document)
  | record (fields : List (String × Document))
deriving Inhabited

/-- Values that have a description. -/
class Describe (α : Type) where
  describe : α → Document

export Describe (describe)

instance [Describe α] : CoeHead α Document := ⟨describe⟩

namespace Document

/-- The value of a field. -/
def field? (d : Document) (name : String) : Option Document :=
  match d with
  | record fields => fields.lookup name
  | _ => none

/-- The value of a field that holds something. -/
def given? (d : Document) (name : String) : Option Document :=
  match d.field? name with
  | some nothing => none
  | found => found

/-- The first field with a name from a list, by which a record tells what it is. -/
def tagged? (d : Document) (tags : List String) : Option (String × Document) :=
  tags.findSome? fun tag => (d.field? tag).map (tag, ·)

mutual

/-- How deep lists and records are nested. -/
def depth : Document → Nat
  | list items => depthOfItems items + 1
  | record fields => depthOfFields fields + 1
  | _ => 1

/-- How deep the items of a list are nested. -/
def depthOfItems : List Document → Nat
  | [] => 0
  | d :: rest => max d.depth (depthOfItems rest)

/-- How deep the fields of a record are nested. -/
def depthOfFields : List (String × Document) → Nat
  | [] => 0
  | (_, d) :: rest => max d.depth (depthOfFields rest)

end

/-- A record of one field for what is present. -/
def under [Describe α] (field : String) : Option α → Document
  | some a => record [(field, describe a)]
  | none => nothing

end Document

instance : Describe Document := ⟨id⟩

instance : Describe Bool := ⟨.flag⟩

instance : Describe Int := ⟨.number⟩

instance : Describe Nat := ⟨fun n => .number n⟩

instance : Describe String := ⟨.text⟩

instance [Describe α] : Describe (List α) :=
  ⟨fun items => .list (items.map describe)⟩

instance [Describe α] : Describe (Option α) where
  describe
    | some a => describe a
    | none => .nothing

instance [Describe α] [Describe β] : Describe (α × β) :=
  ⟨fun (a, b) => .list [a, b]⟩

/-! ## Types and constants -/

instance : Describe TypeId := ⟨fun id => .text id.display⟩

instance : Describe TypeRef := ⟨fun t => .text t.display⟩

instance : Describe DefinedType := ⟨fun h => .text h.display⟩

instance : Describe MethodRef := ⟨fun m => .text m.display⟩

instance : Describe FieldRef := ⟨fun f => .text f.display⟩

instance : Describe Int32 := ⟨fun v => .number v.toInt⟩

/-- A 64-bit integer is described in decimal digits. -/
instance : Describe Int64 := ⟨fun v => .text (toString v.toInt)⟩

instance : Describe Float32 := ⟨fun x => .text (Bits.ofSingle x)⟩

instance : Describe Float := ⟨fun x => .text (Bits.ofDouble x)⟩

instance : Describe Constant where
  describe
    | .null => .nothing
    | .bool b => b
    | .i32 v => .record [("i32", v)]
    | .i64 v => .record [("i64", v)]
    | .f32 v => .record [("f32", v)]
    | .f64 v => .record [("f64", v)]
    | .str s => s

/-! ## Attributes -/

namespace AttributeValue

/-- A value of a payload, tagged with its kind. -/
def document : AttributeValue → Document
  | null => .nothing
  | bool b => b
  | i32 v => describe (Constant.i32 v)
  | i64 v => describe (Constant.i64 v)
  | f32 v => describe (Constant.f32 v)
  | f64 v => describe (Constant.f64 v)
  | str s => s
  | type t => .record [("type", t)]
  | array items => .record [("array", .list (items.map document))]

end AttributeValue

instance : Describe AttributeValue := ⟨AttributeValue.document⟩

instance : Describe CustomAttribute where
  describe p :=
    .record [("attribute", p.attributeName), ("args", p.args), ("names", p.names),
      ("values", p.values)]

end ManagedCode
