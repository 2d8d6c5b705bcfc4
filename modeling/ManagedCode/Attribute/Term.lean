import ManagedCode.Attribute.Custom
import ManagedCode.Number.Binary
import ManagedCode.Session

/-!
# Attribute expressions

A custom attribute is written as an expression: a constructor call, possibly with
properties set on the result.  Compiling folds the arguments and the property
values to constants; an expression that would have to run is malformed.

A getter is a member whose value comes from the host.  Evaluation keeps the names
of the getters in the order in which they are called, so that what is read, and
when, is part of the answer.
-/

namespace ManagedCode

/-- An attribute expression, before it is folded to values. -/
inductive AttributeTerm where
  | constant (value : AttributeValue)
  | getter (name : String) (value : AttributeValue)
  | staticField (field : FieldRef)
  | convert (operand : AttributeTerm) (target : TypeRef)
  | newArray (element : TypeRef) (items : List AttributeTerm)
  | construct (attributeName : String) (args : List AttributeTerm)
  | memberInit (construction : AttributeTerm) (bindings : List (String × AttributeTerm))
  | call (method : String) (args : List AttributeTerm)
  | binary (op : String) (left right : AttributeTerm)
deriving Inhabited

namespace AttributeValue

/-- The value read from a static slot. -/
def ofValue : Value → Except AttributeError AttributeValue
  | .null => .ok null
  | .bool b => .ok (bool b)
  | .i32 v => .ok (i32 v)
  | .i64 v => .ok (i64 v)
  | .f32 v => .ok (f32 v)
  | .f64 v => .ok (f64 v)
  | .str s => .ok (str s)
  | v =>
    .error (.malformed ("a " ++ v.kindName ++ " value cannot be used as an attribute argument"))

/-- The integer that a value is, with its sign. -/
def integer? : AttributeValue → Option Int64
  | i32 v => some v.toInt64
  | i64 v => some v
  | _ => none

/-- The number in double precision that a value is. -/
def float? : AttributeValue → Option Float
  | f32 v => some v.toFloat
  | f64 v => some v
  | i32 v => some v.toInt64.toFloat
  | i64 v => some v.toFloat
  | _ => none

/-- The integer that a numeric constant becomes; a float is narrowed to the
64-bit integers with or without sign. -/
def toInteger? (v : AttributeValue) (signed : Bool) : Option Int64 :=
  v.integer? <|> v.float?.map fun x =>
    if signed then Int64.ofInt (Binary.ofFloat x).toSigned64
    else (UInt64.ofNat (Binary.ofFloat x).toUnsigned64.toNat).toInt64

/-- An integer in the form of a type of the given width. -/
def ofSigned (v : Int64) : IntWidth → AttributeValue
  | .w8 => i32 v.toInt8.toInt32
  | .w16 => i32 v.toInt16.toInt32
  | .w32 => i32 v.toInt32
  | .w64 => i64 v

/-- An integer cut down to an unsigned width. -/
def ofUnsigned (v : Int64) : IntWidth → AttributeValue
  | .w8 => i32 v.toUInt64.toUInt8.toUInt32.toInt32
  | .w16 => i32 v.toUInt64.toUInt16.toUInt32.toInt32
  | .w32 => i32 v.toInt32
  | .w64 => i64 v

/-- A constant in the form of a type.  References and generic parameters take any
constant. -/
def convert (v : AttributeValue) (target : TypeRef) : Except AttributeError AttributeValue :=
  let unsupported : AttributeError :=
    .malformed ("cannot convert a " ++ v.kindName ++ " constant to " ++ target.display)
  let answer (x : Option AttributeValue) : Except AttributeError AttributeValue :=
    match x with
    | some x => .ok x
    | none => .error unsupported
  match target.form with
  | .reference | .generic => .ok v
  | .bool => answer (match v with
    | bool _ => some v
    | _ => none)
  | .void => .error unsupported
  | .signed w => answer ((v.toInteger? true).map (ofSigned · w))
  | .unsigned w => answer ((v.toInteger? false).map (ofUnsigned · w))
  | .char => answer (v.integer?.map (ofUnsigned · .w16))
  | .float .single => answer (v.float?.map fun x => f32 x.toFloat32)
  | .float .double => answer (v.float?.map f64)

end AttributeValue

namespace AttributeTerm

/-- What an error calls an expression. -/
def kindName : AttributeTerm → String
  | constant _ => "constant"
  | getter _ _ => "member access"
  | staticField _ => "member access"
  | convert _ _ => "conversion"
  | newArray _ _ => "array"
  | construct _ _ => "constructor call"
  | memberInit _ _ => "object initializer"
  | call _ _ => "method call"
  | binary _ _ _ => "binary operator"

/-- Sets one more property on the result of an expression. -/
def init (e : AttributeTerm) (property : String) (value : AttributeTerm) : AttributeTerm :=
  match e with
  | memberInit construction bindings => memberInit construction (bindings ++ [(property, value)])
  | e => memberInit e [(property, value)]

/-- An evaluation: a result, and the getters called. -/
abbrev Eval (α : Type) := ExceptT AttributeError (StateM (List String)) α

/-- The value of a static field or literal of a realized type. -/
def readStatic (session : Option Session) (field : FieldRef) :
    Except AttributeError AttributeValue :=
  match session with
  | none => .error (.malformed ("static field " ++ field.display ++ " read without a session"))
  | some s =>
    match s.realized? field.owner with
    | none => .error (.malformed ("type of field " ++ field.display ++ " is not realized"))
    | some t =>
      match t.field? field.index with
      | none => .error (.malformed ("unknown field " ++ field.display))
      | some f =>
        match f.slot, f.constant with
        | .literal, some c => .ok (.ofConstant c)
        | .static slot, _ =>
          match t.staticDefaults[slot]? with
          | none => .error (.malformed ("unknown static slot of " ++ field.display))
          | some v => AttributeValue.ofValue v
        | _, _ =>
          .error (.malformed ("'" ++ t.fullName ++ "." ++ f.name ++ "' is not a static field"))

mutual

/-- Folds an expression to a constant. -/
def evaluate (session : Option Session) : AttributeTerm → Eval AttributeValue
  | constant v => pure v
  | getter name v => do
    modify (· ++ [name])
    pure v
  | staticField f => ExceptT.mk (pure (readStatic session f))
  | convert operand target => do
    let v ← evaluate session operand
    ExceptT.mk (pure (v.convert target))
  | newArray element items => do
    let vs ← evaluateItems session element items
    pure (.array vs)
  | call method _ =>
    throw (.malformed ("method call '" ++ method ++ "' cannot be folded to a constant"))
  | construct _ _ => throw (.malformed "a constructor call cannot be folded to a constant")
  | memberInit _ _ => throw (.malformed "a object initializer cannot be folded to a constant")
  | binary _ _ _ => throw (.malformed "a binary operator cannot be folded to a constant")

/-- Folds the items of an array, each in the form of the element type. -/
def evaluateItems (session : Option Session) (element : TypeRef) :
    List AttributeTerm → Eval (List AttributeValue)
  | [] => pure []
  | e :: rest => do
    let v ← evaluate session e
    let v ← ExceptT.mk (pure (v.convert element))
    let vs ← evaluateItems session element rest
    pure (v :: vs)

end

/-- Folds the values of properties, none of which may be set twice.  `seen` are
the properties set before. -/
def evaluateBindings (session : Option Session) :
    List String → List (String × AttributeTerm) → Eval (List AttributeValue)
  | _, [] => pure []
  | seen, (name, e) :: rest =>
    if seen.contains name then
      throw (.malformed ("property '" ++ name ++ "' assigned twice"))
    else do
      let v ← evaluate session e
      let vs ← evaluateBindings session (seen ++ [name]) rest
      pure (v :: vs)

/-- Compiles a constructor call, with or without properties set on its result. -/
def compile (session : Option Session) (e : AttributeTerm) : Eval CustomAttribute := do
  let (construction, bindings) ← match e with
    | memberInit construction bindings => pure (construction, bindings)
    | construct .. => pure (e, [])
    | other =>
      throw (.malformed ("expected a constructor call, found a " ++ other.kindName))
  match construction with
  | construct attributeName args => do
    let args ← args.mapM (evaluate session)
    let values ← evaluateBindings session [] bindings
    ExceptT.mk (pure (CustomAttribute.ofParts attributeName args (bindings.map (·.1)) values))
  | other =>
    throw (.malformed
      ("object initializer must wrap a constructor call, found a " ++ other.kindName))

end AttributeTerm

end ManagedCode
