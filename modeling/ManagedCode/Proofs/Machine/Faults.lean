import ManagedCode.Machine.Instruction

/-!
# Computations that fault

`Yields short P` holds of a computation that answers with something that has the
property `P`, or fails; it lacks values on the evaluation stack only if `short`
holds.  `Faults P` holds of one that answers, or fails with a fault that has the
property `P`.

The faults of the operators of a program are `Plain`: control is not lost, no budget is
exceeded, no exception gets out, and there is no lack of values, since the operators take
their operands from whoever calls them.
-/

namespace ManagedCode

/-- The answer of a computation, if it has one, has the property `P`; it lacks values
on the stack only if `short` holds. -/
def Yields {α : Type} (short : Prop) (P : α → Prop) : Except Fault α → Prop
  | .ok a => P a
  | .error .stackUnderflow => short
  | .error _ => True

namespace Yields

variable {α β : Type} {short : Prop} {P Q : α → Prop} {R : β → Prop}

/-- One computation after another, which may only lack values for the same reason. -/
theorem bind
    {x : Except Fault α} {g : α → Except Fault β}
    (hx : Yields short P x) (hg : ∀ a, P a → Yields short R (g a)) :
  Yields short R (x >>= g)
  := by
  cases x with
  | ok a => apply hg a hx
  | error e => cases e <;> exact hx

/-- Less may be said of what a computation yields. -/
theorem mono
    {short' : Prop} {x : Except Fault α} (hx : Yields short P x)
    (hshort : short → short') (hPQ : ∀ a, P a → Q a) :
  Yields short' Q x
  := by
  cases x with
  | ok a => apply hPQ a hx
  | error e => cases e <;> first | exact hshort hx | exact hx

/-- A map changes what is yielded, and not how it fails. -/
theorem map
    {x : Except Fault α} {g : α → β} (hx : Yields short P x) (hg : ∀ a, P a → R (g a)) :
  Yields short R (x.map g)
  := by
  cases x with
  | ok a => apply hg a hx
  | error e => cases e <;> exact hx

/-- What is yielded has the property. -/
theorem of_ok {x : Except Fault α} {a : α} (hx : Yields short P x) (h : x = .ok a) : P a := by
  subst h
  exact hx

end Yields

/-- A computation that never lacks values on the stack. -/
abbrev Yields.Always {α : Type} (x : Except Fault α) : Prop :=
  Yields False (fun _ => True) x

/-- A computation that never lacks values may be said to lack them for any reason. -/
theorem Yields.Always.mono
    {α : Type} {short : Prop} {x : Except Fault α} (hx : Yields.Always x) :
  Yields short (fun _ => True) x
  := Yields.mono hx False.elim fun _ h => h

/-- Such a computation yields what it answers with. -/
theorem Yields.Always.answer
    {α : Type} {short : Prop} {x : Except Fault α} (hx : Yields.Always x) :
  Yields short (fun a => x = .ok a) x
  := by
  cases x with
  | ok a => rfl
  | error e => cases e <;> first | exact False.elim hx | trivial

/-! ## Faults of computations -/

/-- How the texts of the faults begin in which control is lost. -/
def Fault.derailments : List String :=
  ["control fell off the end of '", "unresolved label ", "malformed operand for '"]

/-- The reason of a runtime error is one of those of a program off its tracks. -/
def Fault.Derailing (reason : String) : Prop :=
  ∃ start ∈ derailments, start.toList <+: reason.toList

/-- Control is lost. -/
def Fault.Derails : Fault → Prop
  | .runtimeError reason => Derailing reason
  | _ => False

/-- The faults of an instruction that its operand fits and whose labels stand for something. -/
def Fault.Ordinary : Fault → Prop
  | .runtimeError reason => ¬ Derailing reason
  | .stepBudgetExceeded _ | .exception _ => False
  | _ => True

/-- The faults of a computation that has its operands at hand. -/
def Fault.Plain : Fault → Prop
  | .stackUnderflow => False
  | error => error.Ordinary

/-- A plain fault is an ordinary one. -/
theorem Fault.Plain.ordinary {error : Fault} (h : error.Plain) : error.Ordinary := by
  cases error with
  | stackUnderflow => exact False.elim h
  | _ => exact h

/-- An ordinary fault does not come from a program off its tracks. -/
theorem Fault.Ordinary.not_derails {error : Fault} (h : error.Ordinary) : ¬ error.Derails := by
  cases error with
  | runtimeError reason => exact h
  | _ => exact id

/-- If a computation fails, its fault has the property `P`. -/
def Faults {α : Type} (P : Fault → Prop) : Except Fault α → Prop
  | .ok _ => True
  | .error error => P error

namespace Faults

variable {α β : Type} {P Q : Fault → Prop}

/-- One computation after another. -/
theorem bind
    {x : Except Fault α} {g : α → Except Fault β}
    (hx : Faults P x) (hg : ∀ a, x = .ok a → Faults P (g a)) :
  Faults P (x >>= g)
  := by
  cases x with
  | ok a => exact hg a rfl
  | error error => exact hx

/-- Less may be said of how a computation fails. -/
theorem mono {x : Except Fault α} (hx : Faults P x) (hPQ : ∀ error, P error → Q error) :
  Faults Q x
  := by
  cases x with
  | ok a => trivial
  | error error => exact hPQ error hx

theorem map {x : Except Fault α} {g : α → β} (hx : Faults P x) : Faults P (x.map g) := by
  cases x with
  | ok a => trivial
  | error error => exact hx

/-- The fault of a computation has the property. -/
theorem of_error {x : Except Fault α} {error : Fault} (hx : Faults P x) (h : x = .error error) :
  P error
  := by
  subst h
  exact hx

/-- A computation that fails in a plain way fails in an ordinary one. -/
theorem ordinary {x : Except Fault α} (hx : Faults Fault.Plain x) : Faults Fault.Ordinary x :=
  hx.mono fun _ => Fault.Plain.ordinary

/-- A computation that fails in a plain way never lacks values. -/
theorem always {x : Except Fault α} (hx : Faults Fault.Plain x) : Yields.Always x := by
  cases x with
  | ok a => trivial
  | error error =>
      cases error with
      | stackUnderflow => exact hx
      | _ => trivial

end Faults

/-- If a computation lacks values, there is the reason for it. -/
theorem Yields.faults
    {α : Type} {short : Prop} {P : α → Prop} {x : Except Fault α} (hx : Yields short P x) :
  Faults (fun error => error = .stackUnderflow → short) x
  := by
  cases x with
  | ok a => trivial
  | error error =>
      rintro rfl
      exact hx

/-! ## Operators -/

namespace Arithmetic

/-- Two values that are not numbers of one kind are a plain fault. -/
theorem numberPair_faults (op : String) (a b : Value) : Faults Fault.Plain (numberPair op a b) := by
  unfold numberPair
  split <;> trivial

/-- So is an overflow. -/
theorem unlessOverflow_faults {w : Nat} (b : Bool) (op : BinaryOp) (x : BitVec w) :
  Faults Fault.Plain (unlessOverflow b op x)
  := by
  rw [unlessOverflow]
  split <;> trivial

/-- Integer arithmetic fails in a plain way. -/
theorem onWords_faults {w : Nat} (op : BinaryOp) (x y : BitVec w) :
  Faults Fault.Plain (onWords op x y)
  := by
  cases op with
  | add | sub | mul | and | or | xor => trivial
  | addOvf | subOvf | mulOvf | addOvfUn | subOvfUn | mulOvfUn => apply unlessOverflow_faults
  | div | rem =>
      rw [onWords]
      split
      · trivial
      · apply unlessOverflow_faults
  | divUn | remUn =>
      rw [onWords]
      split <;> trivial

theorem onFloats_faults (op : BinaryOp) (x y : Float) : Faults Fault.Plain (onFloats op x y) := by
  cases op <;> trivial

/-- So does arithmetic on all numbers. -/
theorem binary_faults (op : BinaryOp) (a b : Value) : Faults Fault.Plain (binary op a b) := by
  apply Faults.bind (numberPair_faults _ _ _)
  rintro (⟨x, y⟩ | ⟨x, y⟩ | ⟨x, y⟩ | ⟨x, y⟩) -
  · exact Faults.bind (onWords_faults op x y) fun _ _ => trivial
  · exact Faults.bind (onWords_faults op x y) fun _ _ => trivial
  · exact Faults.bind (onFloats_faults op _ _) fun _ _ => trivial
  · exact Faults.bind (onFloats_faults op x y) fun _ _ => trivial

/-- So does a shift. -/
theorem shift_faults (op : ShiftOp) (a b : Value) : Faults Fault.Plain (shift op a b) := by
  rw [shift]
  split
  · trivial
  · split <;> trivial

theorem negate_faults (v : Value) : Faults Fault.Plain (negate v) := by
  unfold negate
  split <;> trivial

theorem complement_faults (v : Value) : Faults Fault.Plain (complement v) := by
  unfold complement
  split <;> trivial

/-- So does a check that a float is finite. -/
theorem checkFinite_faults (v : Value) : Faults Fault.Plain (checkFinite v) := by
  rw [checkFinite]
  split
  · split <;> trivial
  · trivial

/-- Values without an order are a plain fault. -/
theorem order_faults (op : String) (unsigned : Bool) (a b : Value) :
  Faults Fault.Plain (order op unsigned a b)
  := by
  apply Faults.bind (numberPair_faults _ _ _)
  rintro (⟨x, y⟩ | ⟨x, y⟩ | ⟨x, y⟩ | ⟨x, y⟩) - <;> trivial

end Arithmetic

/-- So is a condition on them. -/
theorem Condition.eval_faults (c : Condition) (op : String) (a b : Value) :
  Faults Fault.Plain (c.eval op a b)
  := by
  cases c with
  | equal | notEqual => trivial
  | ordered r => exact Faults.bind (Arithmetic.order_faults op false a b) fun _ _ => trivial
  | unordered r => exact Faults.bind (Arithmetic.order_faults op true a b) fun _ _ => trivial

/-- So is a comparison of them. -/
theorem CompareOp.eval_faults (op : CompareOp) (a b : Value) :
  Faults Fault.Plain (op.eval a b)
  := by
  cases op with
  | ceq => trivial
  | cgt => exact Condition.eval_faults (.ordered .gt) _ a b
  | clt => exact Condition.eval_faults (.ordered .lt) _ a b
  | cltUn => exact Condition.eval_faults (.unordered .lt) _ a b
  | cgtUn =>
      rw [CompareOp.eval]
      split
      · exact Condition.eval_faults _ _ a b
      · trivial

/-- A value that is no number is not converted. -/
theorem ConvSource.ofValue_faults (op : String) (v : Value) :
  Faults Fault.Plain (ConvSource.ofValue op v)
  := by
  unfold ConvSource.ofValue
  split <;> trivial

theorem Opcode.convertValue_faults (target : ConvTarget) (v : Value) :
  Faults Fault.Plain (Opcode.convertValue target v)
  := Faults.bind (ConvSource.ofValue_faults _ _) fun _ _ => trivial

/-- A checked conversion overflows in a plain way. -/
theorem Opcode.convertValueChecked_faults (target : IntTarget) (v : Value) :
  Faults Fault.Plain (Opcode.convertValueChecked target v)
  := by
  apply Faults.bind (ConvSource.ofValue_faults _ _)
  intro s _
  rw [IntTarget.convertChecked]
  split
  · split <;> trivial
  · trivial

end ManagedCode
