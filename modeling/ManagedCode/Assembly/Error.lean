import ManagedCode.Attribute.Custom
import ManagedCode.Emitter.Error

/-!
# Building errors

Why a declaration, a lookup or a finalization is refused.
-/

namespace ManagedCode

/-- The reasons for which an operation on a unit is refused. -/
inductive BuildError where
  | emptyName (what : String)
  | duplicateMember (owner member : String)
  | duplicateType (name : String)
  | notOverridable (base method : String)
  | interfaceBase (name : String)
  | unresolvableMember (owner member : String)
  | unknownType (id : TypeId)
  | typeRealized (name : String)
  | invalidMember (owner reason : String)
  | circularInheritance (name : String)
  | emission (error : EmitError)
  | attributeFault (error : AttributeError)
deriving DecidableEq, Repr, Inhabited

namespace BuildError

/-- The name of the fault, without its particulars; a fault of emission or of an
attribute is named with where it comes from. -/
def kind : BuildError → String
  | emptyName _ => "EmptyName"
  | duplicateMember .. => "DuplicateMember"
  | duplicateType _ => "DuplicateType"
  | notOverridable .. => "NotOverridable"
  | interfaceBase _ => "InterfaceBase"
  | unresolvableMember .. => "UnresolvableMember"
  | unknownType _ => "UnknownType"
  | typeRealized _ => "TypeRealized"
  | invalidMember .. => "InvalidMember"
  | circularInheritance _ => "CircularInheritance"
  | emission error => "Emit." ++ error.kind
  | attributeFault error => "Attribute." ++ error.kind

/-- The text of the refusal. -/
def message : BuildError → String
  | emptyName what => what ++ " name must not be empty"
  | duplicateMember owner member => "Duplicate member '" ++ member ++ "' on type '" ++ owner ++ "'"
  | duplicateType name => "Duplicate type name '" ++ name ++ "'"
  | notOverridable base method =>
    "Method '" ++ method ++ "' on base type '" ++ base ++ "' cannot be overridden"
  | interfaceBase name => "Interface '" ++ name ++ "' cannot have a base type"
  | unresolvableMember owner member =>
    "Unresolvable member '" ++ member ++ "' on type '" ++ owner ++ "'"
  | unknownType id => "Unknown type " ++ id.display
  | typeRealized name => "Type '" ++ name ++ "' is already realized"
  | invalidMember owner reason => "Invalid member on '" ++ owner ++ "': " ++ reason
  | circularInheritance name => "Circular inheritance involving '" ++ name ++ "'"
  | emission error => error.message
  | attributeFault error => error.message

end BuildError

end ManagedCode
