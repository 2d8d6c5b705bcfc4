import ManagedCode.Proofs.Machine.Activation

/-!
# What the machine does about a request

An instruction asks the machine for something: to go on, to call a method, to set up a type, to
return, or to raise an exception.  What the machine does about it is not counted as an
instruction, it ends in a plain fault or lets an exception out if it ends the program, and it
leaves no more active frames than the call depth allows (`Execution.serve_sequel`).
-/

namespace ManagedCode

/-! ## The machine -/

/-- The count of instructions and the limits of a machine. -/
def Machine.spent (machine : Machine) : Nat × Limits :=
  (machine.steps, machine.limits)

namespace Machine

theorem missingSlot_plain (id : TypeId) (slot : Nat) : (missingSlot id slot).Plain := by
  simp [missingSlot, Fault.Plain, Fault.Ordinary, Fault.Derailing, Fault.derailments]

/-- A static slot is read, or a slot is missing. -/
theorem static_faults (machine : Machine) (id : TypeId) (slot : Nat) :
  Faults Fault.Plain (machine.static id slot)
  := by
  rw [Machine.static]
  split
  · trivial
  · exact missingSlot_plain id slot

/-- A static slot is written, or a slot is missing. -/
theorem setStatic_faults (machine : Machine) (id : TypeId) (slot : Nat) (v : Value) :
  Faults Fault.Plain (machine.setStatic id slot v)
  := by
  rw [setStatic]
  split
  · split
    · trivial
    · exact missingSlot_plain id slot
  · exact missingSlot_plain id slot

/-- Setting up a type fails in a plain way. -/
theorem prepare_faults (machine : Machine) (session : Session) (id : TypeId) :
  Faults Fault.Plain (machine.prepare session id).1
  := by
  rw [Machine.prepare]
  dsimp only
  split
  · trivial
  · split
    · trivial
    · split
      · trivial
      · split
        · exact (session.methodAt_faults _).map
        · trivial

/-- Counting an instruction fails only at the budget. -/
theorem tick_faults (machine : Machine) :
  Faults (fun error => ∃ budget, error = .stepBudgetExceeded budget) machine.tick.1
  := by
  rw [tick]
  dsimp only
  split
  · split
    · exact ⟨_, rfl⟩
    · trivial
  · trivial

/-- Setting up a type counts no instruction. -/
theorem prepare_spent (machine : Machine) (session : Session) (id : TypeId) :
  (machine.prepare session id).2.spent = machine.spent
  := by
  rw [Machine.prepare]
  dsimp only
  split
  · rfl
  · split
    · rfl
    · split
      · rfl
      · split <;> rfl

/-- Nor does a write of a static slot. -/
theorem setStatic_spent {machine machine' : Machine} {id : TypeId} {slot : Nat} {v : Value}
    (hset : machine.setStatic id slot v = .ok machine') :
  machine'.spent = machine.spent
  := by
  rw [Machine.setStatic] at hset
  split at hset
  · split at hset
    · cases hset
      rfl
    · cases hset
  · cases hset

end Machine

/-- A method without a body for the type arguments is a plain fault. -/
theorem RealizedMethod.callableBody_faults (m : RealizedMethod) (typeArgs : List TypeRef) :
  Faults Fault.Plain (m.callableBody typeArgs)
  := by
  rw [callableBody]
  split
  · trivial
  · split
    · trivial
    · split <;> trivial

namespace Frame

/-- Entering a handler fails only for lack of room. -/
theorem enterHandler_faults (session : Session) (limit : Nat) (f : Frame) (exception : Value)
    (regions : List Region) (index : Nat) :
  Faults Fault.Plain (enterHandler session limit f exception index regions)
  := by
  induction regions generalizing index with
  | nil => trivial
  | cons r rest ih =>
      rw [enterHandler]
      split
      · split
        · trivial
        · split
          · exact Faults.bind (push_faults _ limit exception) fun _ _ => trivial
          · apply ih
      · apply ih

/-- So does unwinding. -/
theorem unwind_faults (session : Session) (limit : Nat) (exception : Value) (frames : List Frame) :
  Faults Fault.Plain (unwind session limit exception frames)
  := by
  induction frames with
  | nil => trivial
  | cons f callers ih =>
      apply Faults.bind (enterHandler_faults session limit _ exception f.body.regions 0)
      intro answer _
      cases answer with
      | some g => trivial
      | none => exact ih

/-- Unwinding leaves no more frames than there have been. -/
theorem unwind_length
    {session : Session} {limit : Nat} {exception : Value} {frames frames' : List Frame}
    (hunwind : unwind session limit exception frames = .ok frames') :
  frames'.length ≤ frames.length
  := by
  induction frames with
  | nil =>
      cases hunwind
      exact Nat.le_refl 0
  | cons f callers ih =>
      rw [unwind] at hunwind
      cases hraise : f.raise session limit exception with
      | error error =>
          rw [hraise] at hunwind
          cases hunwind
      | ok answer =>
          rw [hraise] at hunwind
          cases answer with
          | some g =>
              cases hunwind
              exact Nat.le_refl _
          | none =>
              exact Nat.le_succ_of_le (ih hunwind)

end Frame

/-! ## Sequels -/

/-- If a program has ended in a fault, the fault has the property `P`. -/
def Status.Ends (P : Fault → Prop) : Status → Prop
  | .finished _ _ (.error error) => P error
  | _ => True

/-- Less may be said of how a program ends. -/
theorem Status.Ends.mono
    {P Q : Fault → Prop} {status : Status} (hends : status.Ends P)
    (hPQ : ∀ error, P error → Q error) :
  status.Ends Q
  := by
  cases status with
  | running e => trivial
  | finished machine heap result =>
      cases result with
      | ok v => trivial
      | error error => exact hPQ error hends

/-- If the program goes on, then with at most `depth` frames. -/
def Status.Shallow (depth : Nat) : Status → Prop
  | .running e => e.frames.length ≤ depth
  | .finished _ _ _ => True

/-- What a program has spent. -/
def Status.spent : Status → Nat × Limits
  | .running e => e.machine.spent
  | .finished machine _ _ => machine.spent

/-- What becomes of a program that the machine serves, from a machine and for a frame with a number
of callers. -/
structure Status.Sequel (machine : Machine) (callers : Nat) (status : Status) : Prop where
  spent : status.spent = machine.spent
  ends : status.Ends fun error => error.Plain ∨ ∃ v, error = .exception v
  shallow : callers < machine.limits.maxCallDepth → status.Shallow machine.limits.maxCallDepth

namespace Status.Sequel

/-- It does not matter from which machine with the same count the program goes on. -/
theorem of_spent
    {machine machine' : Machine} {callers : Nat} {status : Status}
    (hsequel : status.Sequel machine' callers) (hspent : machine'.spent = machine.spent) :
  status.Sequel machine callers
  := by
  have hlimits : machine'.limits = machine.limits := (Prod.mk.inj hspent).2
  exact ⟨hsequel.spent.trans hspent, hsequel.ends, hlimits ▸ hsequel.shallow⟩

/-- A program with room for more frames has room for fewer. -/
theorem of_callers
    {machine : Machine} {callers more : Nat} {status : Status}
    (hsequel : status.Sequel machine callers) (hmore : callers ≤ more) :
  status.Sequel machine more
  := ⟨hsequel.spent, hsequel.ends, fun hroom => hsequel.shallow (Nat.lt_of_le_of_lt hmore hroom)⟩

/-- The program goes on in a frame with the callers. -/
theorem goes_on {e : Execution} (f : Frame) (callers : List Frame) :
  Status.Sequel e.machine callers.length (.running (e.withFrame f callers))
  := ⟨rfl, trivial, id⟩

/-- A program that fails in a plain way. -/
theorem failed {e : Execution} {callers : Nat} {error : Fault} (hplain : error.Plain) :
  Status.Sequel e.machine callers (e.fail error)
  := ⟨rfl, .inl hplain, fun _ => trivial⟩

end Status.Sequel

namespace Execution

variable {f : Frame} {callers : List Frame} {v : Value}

/-- A method is entered, if there is room for its frame. -/
theorem enter_sequel
    (e : Execution) (m : RealizedMethod) (args : List Value) (typeArgs : List TypeRef)
    (resume : Resume) (callers : Nat) :
  (e.enter m args typeArgs resume).Sequel e.machine callers
  := by
  rw [enter]
  split
  · next error herror => exact .failed ((m.callableBody_faults typeArgs).of_error herror)
  · split
    · next hroom => exact ⟨rfl, trivial, fun _ => hroom⟩
    · exact .failed trivial

/-- A frame goes on with a value. -/
theorem complete_sequel (e : Execution) (f : Frame) (callers : List Frame) (v : Value) :
  (e.complete f callers v).Sequel e.machine callers.length
  := by
  rw [complete]
  split
  · exact .goes_on _ callers
  · next error herror => exact .failed ((f.push_faults _ v).of_error herror)

/-- A frame goes on with an instruction that has waited. -/
theorem perform_sequel (e : Execution) (f : Frame) (callers : List Frame) (rest : Deferred) :
  (e.perform f callers rest).Sequel e.machine callers.length
  := by
  cases rest with
  | load owner slot =>
      rw [perform]
      split
      · apply complete_sequel
      · next error herror => exact .failed ((e.machine.static_faults owner slot).of_error herror)
  | store owner slot v =>
      rw [perform]
      split
      · next machine hset =>
        exact (Status.Sequel.goes_on (e := { e with machine := machine }) _ callers).of_spent
          (Machine.setStatic_spent hset)
      · next error herror =>
        exact .failed ((e.machine.setStatic_faults owner slot v).of_error herror)
  | call m args typeArgs => exact (enter_sequel _ m args typeArgs _ _).of_spent rfl
  | construct t m args typeArgs => exact (enter_sequel _ m _ typeArgs _ _).of_spent rfl

/-- A type is set up before a frame goes on. -/
theorem prepare_sequel (session : Session) (e : Execution) (f : Frame) (callers : List Frame)
    (owner : TypeId) (rest : Deferred) :
  (e.prepare session f callers owner rest).Sequel e.machine callers.length
  := by
  have hspent := e.machine.prepare_spent session owner
  have hfaults := e.machine.prepare_faults session owner
  rw [prepare]
  split
  · next error machine hmachine =>
    rw [hmachine] at hspent hfaults
    exact (Status.Sequel.failed (e := { e with machine := machine }) hfaults).of_spent hspent
  · next machine hmachine =>
    rw [hmachine] at hspent
    exact (perform_sequel { e with machine := machine } f callers rest).of_spent hspent
  · next m machine hmachine =>
    rw [hmachine] at hspent
    exact (enter_sequel _ m [] [] _ _).of_spent hspent

/-- A frame returns to its caller. -/
theorem finish_sequel (e : Execution) (f : Frame) (callers : List Frame) (v : Value) :
  (e.finish f callers v).Sequel e.machine callers.length
  := by
  cases callers with
  | nil => exact ⟨rfl, trivial, fun _ => trivial⟩
  | cons caller callers =>
      apply Status.Sequel.of_callers _ (Nat.le_succ callers.length)
      rw [finish]
      split
      · apply complete_sequel
      · exact .goes_on _ callers
      · apply complete_sequel
      · apply perform_sequel

/-- An exception leaves no more frames than there have been. -/
theorem raise_sequel (session : Session) (e : Execution) (f : Frame) (callers : List Frame)
    (exception : Value) :
  (e.raise session f callers exception).Sequel e.machine callers.length
  := by
  rw [raise]
  split
  · next error herror => exact .failed ((Frame.unwind_faults _ _ _ _).of_error herror)
  · exact ⟨rfl, .inr ⟨exception, rfl⟩, fun _ => trivial⟩
  · next hunwind =>
    exact ⟨rfl, trivial, fun hroom => Nat.le_trans (Frame.unwind_length hunwind) hroom⟩

/-- Whatever an instruction asks for is served with the count of the machine and within its depth.
-/
theorem serve_sequel (session : Session) (e : Execution) (callers : List Frame)
    (request : Request) :
  (e.serve session callers request).Sequel e.machine callers.length
  := by
  cases request with
  | proceed f => exact .goes_on f callers
  | finish v =>
      rw [serve]
      split
      · apply finish_sequel
      · exact ⟨rfl, trivial, fun _ => trivial⟩
  | raise f exception => apply raise_sequel
  | invoke f m args typeArgs resume =>
      exact (enter_sequel (e.withFrame f callers) m args typeArgs resume _).of_spent rfl
  | prepare f owner rest => apply prepare_sequel

end Execution

end ManagedCode
