import ManagedCode.Proofs.Emitter.Checks

/-!
# Relaxed streams

Sealing chooses the forms of the branches to labels: the short one where the distance from the next
instruction to the target fits a signed byte, and the long one elsewhere.  Nothing else of a stream
changes (`Emitter.Relaxes`).
-/

namespace ManagedCode

/-- The second instruction is the first, or the same branch to a label in some form. -/
inductive Instruction.Recoded (i : Instruction) : Instruction → Prop
  | same : Recoded i i
  | branch (l : Label) (w : Width) (hlabel : i.operand = .label l) :
    Recoded i { i with opcode := i.opcode.withWidth w }

namespace Opcode

/-- Only branches come in two widths. -/
theorem withWidth_of_not_isBranch {op : Opcode} (hop : op.isBranch = false) (w : Width) :
  op.withWidth w = op
  := by
  cases op with
  | branch test _ => cases test <;> cases hop
  | leave _ => cases hop
  | _ => rfl

end Opcode

namespace Emitter

variable {e : Emitter} {effectOf : Opcode → MethodRef → Option CallEffect} {body : MethodBody}

/-- Relaxing changes nothing but the width of a branch. -/
theorem relaxInstruction_recoded (e : Emitter) (ip : Nat) (i : Instruction) :
  i.Recoded (e.relaxInstruction ip i)
  := by
  rw [relaxInstruction]
  split
  · next l hlabel =>
    split
    · next target _ => exact .branch l (widthFor ip target) hlabel
    · exact .same
  · exact .same

theorem relaxInstruction_of_not_branch {i : Instruction}
    (hi : ∀ l, i.operand = .label l → i.opcode.isBranch = false) (ip : Nat) :
  e.relaxInstruction ip i = i
  := by
  have hrecoded := e.relaxInstruction_recoded ip i
  generalize e.relaxInstruction ip i = j at hrecoded
  cases hrecoded with
  | same => rfl
  | branch l w hlabel => rw [Opcode.withWidth_of_not_isBranch (hi l hlabel)]

end Emitter

end ManagedCode
