import ManagedCode.Attribute.Term
import ManagedCode.Describe.Reader

/-!
# Reading attributes

Attribute values, custom attributes and attribute expressions from documents.  An
expression is a record that is known by one of its fields.
-/

namespace ManagedCode.Reader

/-- A value of a payload that is nested at most as deep as the first argument. -/
def attributeValueWithin : Nat → Document → Reader AttributeValue
  | 0, _ => throw "attribute value"
  | fuel + 1, d => do
    match d.tagged? ["type", "array"] with
    | some ("type", t) => return .type (← type t)
    | some (_, vs) => return .array (← list (attributeValueWithin fuel) vs)
    | none => return .ofConstant (← constant d)

/-- A value of a payload. -/
def attributeValue (d : Document) : Reader AttributeValue :=
  attributeValueWithin d.depth d

/-- A custom attribute with its arguments and properties as they are. -/
def customAttribute (d : Document) : Reader (Except AttributeError CustomAttribute) :=
  return CustomAttribute.ofParts (← textField d "attribute") (← listField attributeValue d "args")
    (← listField text d "names") (← listField attributeValue d "values")

/-- The fields that tell the form of an expression. -/
def expressionTags : List String :=
  ["const", "getter", "static", "convert", "new_array", "new", "init", "member_init", "call",
    "binary"]

/-- An attribute expression that is nested at most as deep as the first argument. -/
def expressionWithin : Nat → Document → Reader AttributeTerm
  | 0, _ => throw "expression"
  | fuel + 1, d => do
    let sub := expressionWithin fuel
    let binding (b : Document) : Reader (String × AttributeTerm) := do
      match ← items b with
      | [name, e] => return (← text name, ← sub e)
      | _ => throw "binding"
    match d.tagged? expressionTags with
    | some ("const", v) => return .constant (← attributeValue v)
    | some ("getter", n) => return .getter (← text n) (← attributeValue (← field d "value"))
    | some ("static", f) => return .staticField (← fieldRef f)
    | some ("convert", e) => return .convert (← sub e) (← type (← field d "to"))
    | some ("new_array", t) => return .newArray (← type t) (← listField sub d "items")
    | some ("new", n) => return .construct (← text n) (← listField sub d "args")
    | some ("init", e) =>
      return (← sub e).init (← textField d "property") (← sub (← field d "value"))
    | some ("member_init", e) => return .memberInit (← sub e) (← listField binding d "bindings")
    | some ("call", n) => return .call (← text n) (← listField sub d "args")
    | some ("binary", n) =>
      return .binary (← text n) (← sub (← field d "left")) (← sub (← field d "right"))
    | _ => throw "expression"

/-- An attribute expression. -/
def expression (d : Document) : Reader AttributeTerm :=
  expressionWithin d.depth d

end ManagedCode.Reader
