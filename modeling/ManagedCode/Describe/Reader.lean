import ManagedCode.Describe.Document
import ManagedCode.Member.Signature

/-!
# Reading documents

Hosts also write documents, and name in them what they know: types, methods and
fields.  A reader takes a document apart in a scope that knows these names.  What it
cannot read it refuses with a word for what was expected.

Types are written as they are described, constants as well.  A field that may be
absent may also hold nothing.
-/

namespace ManagedCode

/-- The names that documents may use: those that a host has given to types, methods
and fields, and the full names of defined types. -/
structure Scope where
  types : List (String × TypeRef) := []
  methods : List (String × MethodRef) := []
  fields : List (String × FieldRef) := []
  named : String → Option DefinedType := fun _ => none
deriving Inhabited

namespace Scope

/-- A type behind a mark: `$` and a given name, `@` and a full name, or `#` and a
number with a kind. -/
def type? (s : Scope) (name : String) : Option TypeRef := do
  match name.toList with
  | '$' :: given => s.types.lookup (String.ofList given)
  | '@' :: full => return .defined (← s.named (String.ofList full))
  | '#' :: rest =>
    match (String.ofList rest).splitOn ":" with
    | [id, "class"] => return .defined ⟨⟨← id.toNat?⟩, .classType⟩
    | [id, "interface"] => return .defined ⟨⟨← id.toNat?⟩, .interfaceType⟩
    | [id, "enum", p] => return .defined ⟨⟨← id.toNat?⟩, .enumType (← Primitive.ofName? p)⟩
    | _ => none
  | _ => none

/-- What a given name behind its mark stands for. -/
def given? (table : List (String × α)) (name : String) : Option α :=
  match name.toList with
  | '$' :: given => table.lookup (String.ofList given)
  | _ => none

end Scope

/-- A reading of data, which fails with what was expected. -/
abbrev Reader (α : Type) := ReaderT Scope (Except String) α

namespace Reader

/-- A thing that a name must stand for. -/
def known (what : String) : Option α → Reader α
  | some a => pure a
  | none => throw what

/-- A string. -/
def text : Document → Reader String
  | .text s => pure s
  | _ => throw "text"

/-- An integer, as a number or in decimal digits. -/
def int : Document → Reader Int
  | .number n => pure n
  | .text s => known "integer" s.toInt?
  | _ => throw "integer"

/-- A number without a sign. -/
def nat (d : Document) : Reader Nat :=
  return (← int d).toNat

/-- The items of a list. -/
def items : Document → Reader (List Document)
  | .list items => pure items
  | _ => throw "list"

/-- A list, item by item. -/
def list (read : Document → Reader α) (d : Document) : Reader (List α) := do
  (← items d).mapM read

/-- A field that a record must have. -/
def field (d : Document) (name : String) : Reader Document :=
  known name (d.field? name)

/-- A field that may be absent. -/
def optional (read : Document → Reader α) (d : Document) (name : String) : Reader (Option α) :=
  (d.given? name).mapM read

/-- A list that may be absent. -/
def listField (read : Document → Reader α) (d : Document) (name : String) : Reader (List α) :=
  return (← optional (list read) d name).getD []

/-- A field with a string. -/
def textField (d : Document) (name : String) : Reader String := do
  text (← field d name)

/-- A field with a truth value, which may be left out. -/
def flagField (d : Document) (name : String) (default : Bool) : Reader Bool :=
  match d.field? name with
  | some (.flag b) => pure b
  | some _ => throw name
  | none => pure default

/-- The member of a list with the given name. -/
def oneOf (all : List α) (name : α → String) (d : Document) : Reader α := do
  let s ← text d
  known s (all.find? (name · == s))

/-! ## Types and members -/

/-- A primitive type by its name. -/
def primitive (d : Document) : Reader Primitive :=
  oneOf Primitive.all (·.name) d

/-- A type as it is written in an operation. -/
def type (d : Document) : Reader TypeRef := do
  let s ← text d
  known s (TypeRef.parse? (← read).type? s)

/-- A field with types. -/
def types (d : Document) (name : String) : Reader (List TypeRef) :=
  listField type d name

/-- A defined type by its number or by its text. -/
def typeId : Document → Reader TypeId
  | .number n => pure ⟨n.toNat⟩
  | d => do known "defined type" (← type d).definedId?

/-- A method by its name, or by its owner and its position. -/
def method : Document → Reader MethodRef
  | .list [owner, index] => return ⟨← typeId owner, ← nat index⟩
  | d => do
    let s ← text d
    known s (Scope.given? (← read).methods s)

/-- The handle of a field, by its owner and its position. -/
def fieldRef : Document → Reader FieldRef
  | .list [owner, index] => return ⟨← typeId owner, ← nat index⟩
  | d => do
    let s ← text d
    known s (Scope.given? (← read).fields s)

/-- A visibility in lower case, which is public unless it is given. -/
def visibility (d : Document) (name : String) : Reader Visibility :=
  oneOf Visibility.all (·.name.toLower) ((d.field? name).getD "public")

/-- The name under which documents ask for a modifier. -/
def modifierName (m : Modifier) : String :=
  if m = .explicitImplementation then "explicit" else m.name.toLower

/-- A field with a modifier, which may be left out. -/
def modifier (d : Document) (name : String) : Reader Modifier :=
  oneOf Modifier.all modifierName ((d.field? name).getD "standard")

/-! ## Constants and parameters -/

/-- The fields that tell the type of a number. -/
def numberTags : List String :=
  ["i32", "i64", "f32", "f64"]

/-- A constant, tagged with its type. -/
def constant (d : Document) : Reader Constant := do
  match d, d.tagged? numberTags with
  | .nothing, _ => return .null
  | .flag b, _ => return .bool b
  | .text s, _ => return .str s
  | _, some ("i32", v) => return .i32 (Int32.ofInt (← int v))
  | _, some ("i64", v) => return .i64 (Int64.ofInt (← int v))
  | _, some ("f32", v) => return .f32 (Bits.toSingle (← text v))
  | _, some ("f64", v) => return .f64 (Bits.toDouble (← text v))
  | _, _ => throw "constant"

/-- A parameter by its name, its type and a record of what else it has. -/
def parameter (d : Document) : Reader Parameter := do
  match ← items d with
  | name :: t :: options =>
    let more := options.headD .nothing
    return { name := ← text name
             type := ← type t
             default := ← (more.field? "default").mapM constant
             isOut := ← flagField more "out" false }
  | _ => throw "parameter"

end Reader

end ManagedCode
