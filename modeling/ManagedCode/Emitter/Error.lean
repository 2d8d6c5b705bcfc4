import ManagedCode.Code.Body
import ManagedCode.Text.Quoted

/-!
# Emission errors

What can be wrong with a stream of emitted instructions, and how each fault is
worded.
-/

namespace ManagedCode

/-- The reasons for which a body cannot be sealed. -/
inductive EmitError where
  | unsupportedConversion (target : TypeRef) (reason : String)
  | unmarkedLabel (method : String) (label : Nat)
  | labelMarkedTwice (method : String) (label : Nat)
  | unknownLabel (method : String) (label : Nat)
  | invalidBranchTarget (method : String) (label : Nat)
  | operandMismatch (offset : Nat) (opcode : Opcode) (expected : OperandKind)
  | exceptionBlock (method : String) (reason : String)
  | stackUnderflow (method : String) (offset : Nat)
  | fallOffEnd (method : String)
  | isSealed (method : String)
deriving DecidableEq, Repr, Inhabited

namespace EmitError

/-- The name of the fault, without its particulars. -/
def kind : EmitError → String
  | unsupportedConversion .. => "UnsupportedConversion"
  | unmarkedLabel .. => "UnmarkedLabel"
  | labelMarkedTwice .. => "LabelMarkedTwice"
  | unknownLabel .. => "UnknownLabel"
  | invalidBranchTarget .. => "InvalidBranchTarget"
  | operandMismatch .. => "OperandMismatch"
  | exceptionBlock .. => "ExceptionBlock"
  | stackUnderflow .. => "StackUnderflow"
  | fallOffEnd .. => "FallOffEnd"
  | isSealed .. => "Sealed"

/-- The text of the error. -/
def message : EmitError → String
  | unsupportedConversion t reason => "Unsupported conversion to " ++ t.display ++ ": " ++ reason
  | unmarkedLabel m l => "Label " ++ toString l ++ " is used but never marked in '" ++ m ++ "'"
  | labelMarkedTwice m l => "Label " ++ toString l ++ " is marked twice in '" ++ m ++ "'"
  | unknownLabel m l => "Label " ++ toString l ++ " does not belong to '" ++ m ++ "'"
  | invalidBranchTarget m l =>
    "Label " ++ toString l ++ " in '" ++ m ++ "' does not precede an instruction"
  | operandMismatch ip op kind =>
    "Operand mismatch at " ++ Text.offset ip ++ ": '" ++ op.mnemonic ++ "' expects " ++ kind.name
  | exceptionBlock m reason => "Exception block error in '" ++ m ++ "': " ++ reason
  | stackUnderflow m ip => "Stack underflow at " ++ Text.offset ip ++ " in '" ++ m ++ "'"
  | fallOffEnd m => "Control falls off the end of '" ++ m ++ "'"
  | isSealed m => "Emitter for '" ++ m ++ "' is already sealed"

end EmitError

end ManagedCode
