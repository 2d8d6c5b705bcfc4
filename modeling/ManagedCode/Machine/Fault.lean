import ManagedCode.Value

/-!
# Faults of a running program

What can end the run of a program.  An exception is a value that the program
threw and did not catch; every other fault ends the run at once, and no handler
of the program sees it.
-/

namespace ManagedCode

/-- The ways in which a call from outside fails. -/
inductive Fault where
  | stackOverflow
  | stackUnderflow
  | nullReference
  | invalidCast (source target : String)
  | overflow (operation : String)
  | divideByZero
  | indexOutOfRange (index : Int64) (length : Nat)
  | typeError (reason : String)
  | unknownType (id : TypeId)
  | missingMember (owner member : String)
  | abstractInstantiation (name : String)
  | missingBody (name : String)
  | stepBudgetExceeded (budget : Nat)
  | exception (value : Value)
  | runtimeError (reason : String)
deriving Inhabited

namespace Fault

/-- The name of the fault, without its particulars. -/
def kind : Fault → String
  | stackOverflow => "StackOverflow"
  | stackUnderflow => "StackUnderflow"
  | nullReference => "NullReference"
  | invalidCast .. => "InvalidCast"
  | overflow _ => "Overflow"
  | divideByZero => "DivideByZero"
  | indexOutOfRange .. => "IndexOutOfRange"
  | typeError _ => "TypeError"
  | unknownType _ => "UnknownType"
  | missingMember .. => "MissingMember"
  | abstractInstantiation _ => "AbstractInstantiation"
  | missingBody _ => "MissingBody"
  | stepBudgetExceeded _ => "StepBudgetExceeded"
  | exception _ => "Exception"
  | runtimeError _ => "RuntimeError"

/-- The text of a fault; `display` writes the value of an exception. -/
def message (display : Value → String) : Fault → String
  | stackOverflow => "Stack overflow"
  | stackUnderflow => "Stack underflow"
  | nullReference => "Null reference"
  | invalidCast source target => "Invalid cast from " ++ source ++ " to " ++ target
  | overflow operation => "Arithmetic overflow in " ++ operation
  | divideByZero => "Division by zero"
  | indexOutOfRange index length =>
    "Index " ++ toString index.toInt ++ " out of range for length " ++ toString length
  | typeError reason => "Type error: " ++ reason
  | unknownType id => "Unknown type " ++ id.display
  | missingMember owner member => "Member '" ++ member ++ "' not found on '" ++ owner ++ "'"
  | abstractInstantiation name => "Cannot create an instance of abstract type '" ++ name ++ "'"
  | missingBody name => "Method '" ++ name ++ "' has no body"
  | stepBudgetExceeded budget => "Step budget of " ++ toString budget ++ " instructions exceeded"
  | exception value => "Unhandled exception: " ++ display value
  | runtimeError reason => "Runtime error: " ++ reason

end Fault

end ManagedCode
