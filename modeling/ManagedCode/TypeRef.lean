/-!
# Types

The types a program can mention: primitives, strings, objects, arrays, types
defined by a program, and the generic parameters of a method.  A defined type
is mentioned by its handle, which carries its number and its kind, so that a
type can be classified without looking it up.

The main operations are `TypeRef.form`, which sorts a type by the form its
values take, and `TypeRef.substitute`, which puts type arguments in place of
generic parameters.
-/

namespace ManagedCode

/-- The number of a defined type within its session.  A program holds it in 32 bits
(`TypeId.bits`), which is the same as long as fewer than `2 ^ 32 - 1` types are declared. -/
structure TypeId where
  number : Nat
deriving DecidableEq, Repr, Inhabited

/-- The 32 bits that hold the number of a type. -/
def TypeId.bits (x : TypeId) : UInt32 :=
  .ofNat x.number

/-- A primitive type. -/
inductive Primitive where
  | bool | char
  | i8 | i16 | i32 | i64
  | u8 | u16 | u32 | u64
  | f32 | f64
deriving DecidableEq, Repr, Inhabited

/-- The kind of a defined type; an enumeration has an underlying primitive. -/
inductive TypeKind where
  | classType
  | interfaceType
  | enumType (underlying : Primitive)
deriving DecidableEq, Repr, Inhabited

/-- A defined type as programs mention it. -/
structure DefinedType where
  id : TypeId
  kind : TypeKind
deriving DecidableEq, Repr, Inhabited

/-- A method, by the type that declares it and its position there. -/
structure MethodRef where
  owner : TypeId
  index : Nat
deriving DecidableEq, Repr, Inhabited

/-- A field, by the type that declares it and its position there. -/
structure FieldRef where
  owner : TypeId
  index : Nat
deriving DecidableEq, Repr, Inhabited

/-- A type as it is written in signatures, fields and instructions. -/
inductive TypeRef where
  | void
  | primitive (p : Primitive)
  | string
  | object
  | array (element : TypeRef)
  | defined (handle : DefinedType)
  | generic (name : String)
deriving DecidableEq, Repr, Inhabited

/-- The width of an integer type. -/
inductive IntWidth where
  | w8 | w16 | w32 | w64
deriving DecidableEq, Repr, Inhabited

/-- The width of a floating point type. -/
inductive FloatWidth where
  | single | double
deriving DecidableEq, Repr, Inhabited

/-- The form that the values of a type take. -/
inductive ValueForm where
  | void
  | bool
  | char
  | signed (width : IntWidth)
  | unsigned (width : IntWidth)
  | float (width : FloatWidth)
  | reference
  | generic
deriving DecidableEq, Repr, Inhabited

namespace TypeId

/-- An id in an error or a listing. -/
def display (id : TypeId) : String :=
  "#" ++ toString id.number

end TypeId

namespace MethodRef

/-- A method in a listing, by its owner and its position. -/
def display (m : MethodRef) : String :=
  m.owner.display ++ "::m" ++ toString m.index

/-- Methods are listed by their owners, and those of one owner by position. -/
def precedes (a b : MethodRef) : Bool :=
  a.owner.number < b.owner.number || (a.owner == b.owner && a.index ≤ b.index)

end MethodRef

namespace FieldRef

/-- A field in a listing, by its owner and its position. -/
def display (f : FieldRef) : String :=
  f.owner.display ++ "::f" ++ toString f.index

end FieldRef

namespace IntWidth

/-- How many bits an integer has. -/
def bits : IntWidth → Nat
  | w8 => 8
  | w16 => 16
  | w32 => 32
  | w64 => 64

end IntWidth

namespace FloatWidth

/-- How many bits a float has. -/
def bits : FloatWidth → Nat
  | single => 32
  | double => 64

end FloatWidth

namespace Primitive

/-- The name of a primitive type. -/
def name : Primitive → String
  | bool => "bool"
  | char => "char"
  | i8 => "i8"
  | i16 => "i16"
  | i32 => "i32"
  | i64 => "i64"
  | u8 => "u8"
  | u16 => "u16"
  | u32 => "u32"
  | u64 => "u64"
  | f32 => "f32"
  | f64 => "f64"

/-- Every primitive type, in the order in which they are declared. -/
def all : List Primitive :=
  [bool, char, i8, i16, i32, i64, u8, u16, u32, u64, f32, f64]

/-- The primitive type that has a name. -/
def ofName? (s : String) : Option Primitive :=
  all.find? (·.name == s)

/-- Whether the values are integers. -/
def isIntegral : Primitive → Bool
  | bool | char | f32 | f64 => false
  | _ => true

/-- How values of the type are stored. -/
def form : Primitive → ValueForm
  | bool => .bool
  | char => .char
  | i8 => .signed .w8
  | i16 => .signed .w16
  | i32 => .signed .w32
  | i64 => .signed .w64
  | u8 => .unsigned .w8
  | u16 => .unsigned .w16
  | u32 => .unsigned .w32
  | u64 => .unsigned .w64
  | f32 => .float .single
  | f64 => .float .double

end Primitive

namespace TypeKind

/-- Whether the type is an interface. -/
def isInterface : TypeKind → Bool
  | interfaceType => true
  | _ => false

/-- Whether the type is an enumeration. -/
def isEnum : TypeKind → Bool
  | enumType _ => true
  | _ => false

/-- The kind of a type in a listing. -/
def display : TypeKind → String
  | classType => "class"
  | interfaceType => "interface"
  | enumType underlying => "enum : " ++ underlying.name

end TypeKind

namespace ValueForm

/-- The name of a form, with the width of a number in bits. -/
def name : ValueForm → String
  | void => "Void"
  | bool => "Bool"
  | char => "Char"
  | signed w => "SignedInt(" ++ toString w.bits ++ ")"
  | unsigned w => "UnsignedInt(" ++ toString w.bits ++ ")"
  | float w => "Float(" ++ toString w.bits ++ ")"
  | reference => "Reference"
  | generic => "Generic"

end ValueForm

namespace DefinedType

/-- A type with its id in a listing. -/
def display (h : DefinedType) : String :=
  h.kind.display ++ h.id.display

end DefinedType

namespace TypeRef

/-- The form of the values of a type.  An enumeration has the form of its
underlying primitive; every other defined type holds references. -/
def form : TypeRef → ValueForm
  | void => .void
  | primitive p => p.form
  | defined ⟨_, .enumType underlying⟩ => underlying.form
  | defined _ => .reference
  | string => .reference
  | object => .reference
  | array _ => .reference
  | generic _ => .generic

/-- Primitives and enumerations are value types: an object holds one by value,
and a reference to one is a box. -/
def isValueType : TypeRef → Bool
  | primitive _ => true
  | defined ⟨_, .enumType _⟩ => true
  | _ => false

/-- Whether a type is a generic parameter itself. -/
def isGeneric : TypeRef → Bool
  | generic _ => true
  | _ => false

/-- Whether a type or the type of its elements is a generic parameter. -/
def hasGeneric : TypeRef → Bool
  | generic _ => true
  | array e => e.hasGeneric
  | _ => false

/-- The argument that stands at the position of a generic parameter's name. -/
def argumentFor (params : List String) (args : List TypeRef) (name : String) : Option TypeRef :=
  (params.findIdx? (· == name)).bind (args[·]?)

/-- Puts each argument in place of the generic parameter at its position.  A
parameter that is not listed, or that has no argument, stays. -/
def substitute (t : TypeRef) (params : List String) (args : List TypeRef) : TypeRef :=
  match t with
  | generic name => (argumentFor params args name).getD (generic name)
  | array e => array (e.substitute params args)
  | other => other

/-- The number of a defined type. -/
def definedId? : TypeRef → Option TypeId
  | defined h => some h.id
  | _ => none

/-- A type in an error or a listing. -/
def display : TypeRef → String
  | void => "void"
  | primitive p => p.name
  | string => "string"
  | object => "object"
  | array e => e.display ++ "[]"
  | defined h => h.display
  | generic name => "!!" ++ name

/-- A type whose text is neither that of an array nor that of a generic parameter;
`named` knows the defined types. -/
def parseSimple? (named : String → Option TypeRef) (s : String) : Option TypeRef :=
  match s with
  | "void" => some void
  | "string" => some string
  | "object" => some object
  | s => (Primitive.ofName? s).map primitive <|> named s

/-- Reads a type from its characters, the last one first. -/
def parseReversed? (named : String → Option TypeRef) : List Char → Option TypeRef
  | ']' :: '[' :: rest => (parseReversed? named rest).map array
  | rest =>
    match rest.reverse with
    | '!' :: '!' :: name => some (generic (String.ofList name))
    | cs => parseSimple? named (String.ofList cs)

/-- Reads the text of a type as `display` writes it, but for the defined types, whose
names are the caller's. -/
def parse? (named : String → Option TypeRef) (s : String) : Option TypeRef :=
  parseReversed? named s.toList.reverse

/-- The types of the list that a program has defined, by number. -/
def definedIds (ts : List TypeRef) : List TypeId :=
  ts.filterMap definedId?

end TypeRef

end ManagedCode
