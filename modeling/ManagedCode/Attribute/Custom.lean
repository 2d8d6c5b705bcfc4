import ManagedCode.Constant

/-!
# Custom attributes

A custom attribute on a type or a method: the attribute's name, the arguments of its
constructor, and the properties that are set on it.
-/

namespace ManagedCode

/-- What the payload of an attribute holds. -/
inductive AttributeValue where
  | null
  | bool (value : Bool)
  | i32 (value : Int32)
  | i64 (value : Int64)
  | f32 (value : Float32)
  | f64 (value : Float)
  | str (value : String)
  | type (value : TypeRef)
  | array (items : List AttributeValue)
deriving Inhabited

/-- The reasons for which an attribute expression is refused. -/
inductive AttributeError where
  | malformed (reason : String)
  | countMismatch (names values : Nat)
deriving DecidableEq, Repr, Inhabited

namespace AttributeError

/-- The name of the fault, without its particulars. -/
def kind : AttributeError → String
  | malformed _ => "Malformed"
  | countMismatch .. => "CountMismatch"

/-- The text of the refusal. -/
def message : AttributeError → String
  | malformed reason => "Malformed attribute expression: " ++ reason
  | countMismatch names values =>
    "Attribute property count mismatch: " ++ toString names ++ " names, "
      ++ toString values ++ " values"

end AttributeError

namespace AttributeValue

/-- What an error calls a value of a payload. -/
def kindName : AttributeValue → String
  | null => "null"
  | bool _ => "bool"
  | i32 _ => "i32"
  | i64 _ => "i64"
  | f32 _ => "f32"
  | f64 _ => "f64"
  | str _ => "string"
  | type _ => "type"
  | array _ => "array"

/-- The value of a constant in a payload. -/
def ofConstant : Constant → AttributeValue
  | .null => null
  | .bool b => bool b
  | .i32 v => i32 v
  | .i64 v => i64 v
  | .f32 v => f32 v
  | .f64 v => f64 v
  | .str s => str s

end AttributeValue

/-- An attribute as a declaration keeps it: its constructor with the arguments, and the properties
that it sets. -/
structure CustomAttribute where
  attributeName : String
  args : List AttributeValue
  names : List String
  values : List AttributeValue
deriving Inhabited

namespace CustomAttribute

/-- A custom attribute has as many property values as property names. -/
def ofParts (attributeName : String) (args : List AttributeValue) (names : List String)
    (values : List AttributeValue) : Except AttributeError CustomAttribute :=
  if names.length = values.length then .ok ⟨attributeName, args, names, values⟩
  else .error (.countMismatch names.length values.length)

/-- The properties that are set, in order. -/
def properties (p : CustomAttribute) : List (String × AttributeValue) :=
  p.names.zip p.values

/-- The first value that a property is set to. -/
def property? (p : CustomAttribute) (name : String) : Option AttributeValue :=
  p.properties.lookup name

end CustomAttribute

end ManagedCode
