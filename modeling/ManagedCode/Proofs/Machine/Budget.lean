import ManagedCode.Proofs.Machine.Endings
import ManagedCode.Proofs.Machine.HostCalls
import Mathlib.Algebra.GroupWithZero.Nat

/-!
# The budget of instructions

Every step of a program counts one instruction, and under a budget a run executes no more than
that: it attempts one instruction more only to end in `stepBudgetExceeded`.  The count starts
anew with every run that the host starts.  A call that starts one run is therefore held to the
budget, and the count is that of the call; a call that first has the initializer of a type run
may execute up to twice as many instructions, and the count is that of its last run
(`HostCall.budget_per_run`).
-/

namespace ManagedCode

/-! ## Counting instructions -/

/-- An instruction that the budget allows is counted. -/
theorem Machine.tick_of_le
    {machine : Machine}
    (h : ∀ budget, machine.limits.stepBudget = some budget → machine.steps + 1 ≤ budget) :
  machine.tick = (.ok (), { machine with steps := machine.steps + 1 })
  := by
  rw [tick]
  dsimp only
  split
  · next budget hbudget => exact if_neg (Nat.not_lt.mpr (h budget hbudget))
  · rfl

namespace Execution

variable {session : Session} {e : Execution} {budget : Nat}

/-- The innermost frame is at an instruction. -/
def fetches (e : Execution) : Bool :=
  match e.frames with
  | [] => false
  | f :: _ => (f.body.instructions[f.ip]?).isSome

/-- The innermost frame is at an instruction that the budget allows. -/
def affords (e : Execution) : Bool :=
  e.fetches && e.machine.limits.stepBudget.all (e.machine.steps < ·)

/-- How many programs on a run have a property. -/
def count (session : Session) (p : Execution → Bool) : Nat → Execution → Nat
  | 0, _ => 0
  | fuel + 1, e =>
    (p e).toNat + match e.step session with
      | .running e => count session p fuel e
      | .finished _ _ _ => 0

/-- A budget is exceeded. -/
def ExceedsBudget : Fault → Prop
  | .stepBudgetExceeded _ => True
  | _ => False

/-- What a step does about the budget. -/
inductive Charge (session : Session) (budget : Nat) (e : Execution) : Prop
  | idle {result : Except Fault Value}
      (hfetches : e.fetches = false) (hstep : e.step session = .finished e.machine e.heap result)
      (hresult : Faults (¬ ExceedsBudget ·) result)
  | refused (hfetches : e.fetches = true) (haffords : e.affords = false)
      (hstep : e.step session
        = .finished { e.machine with steps := e.machine.steps + 1 } e.heap
          (.error (.stepBudgetExceeded budget)))
  | counted (hfetches : e.fetches = true) (haffords : e.affords = true)
      (hspent : (e.step session).spent = (e.machine.steps + 1, e.machine.limits))
      (hends : (e.step session).Ends (¬ ExceedsBudget ·))

theorem not_exceedsBudget_of_ordinary (error : Fault) (h : error.Ordinary) :
  ¬ ExceedsBudget error
  := by
  cases error with
  | stepBudgetExceeded budget => exact h.elim
  | _ => exact id

theorem not_exceedsBudget_of_sequel (error : Fault)
    (h : error.Plain ∨ ∃ v, error = .exception v) :
  ¬ ExceedsBudget error
  := by
  rcases h with hplain | ⟨v, rfl⟩
  · exact not_exceedsBudget_of_ordinary error hplain.ordinary
  · exact id

theorem execute_not_exceedsBudget (s : Surroundings) (heap : Heap) (f : Frame)
    (i : Instruction) :
  Faults (¬ ExceedsBudget ·) (s.execute heap f i)
  := by
  apply Surroundings.execute_faults not_exceedsBudget_of_ordinary
  · exact fun _ => id
  · intro l _
    rw [Frame.target]
    split
    · trivial
    · exact id

/-- A step attempts an instruction, which is counted, or the run is at its end. -/
theorem charge (session : Session) (hbudget : e.machine.limits.stepBudget = some budget) :
  Charge session budget e
  := by
  obtain ⟨machine, heap, frames⟩ := e
  dsimp only at hbudget
  cases frames with
  | nil => exact .idle rfl rfl trivial
  | cons f callers =>
      have hfetches : fetches ⟨machine, heap, f :: callers⟩ = (f.body.instructions[f.ip]?).isSome :=
        rfl
      have hstep := step.eq_1 session ⟨machine, heap, f :: callers⟩
      dsimp only at hstep
      cases hinstruction : f.body.instructions[f.ip]? with
      | none =>
          rw [hinstruction] at hfetches hstep
          exact .idle hfetches hstep (show Faults _ (.error _) from id)
      | some i =>
          rw [hinstruction] at hfetches hstep
          have haffords : affords ⟨machine, heap, f :: callers⟩
              = decide (machine.steps < budget) := by
            rw [affords, hfetches, hbudget]
            rfl
          rw [Machine.tick] at hstep
          dsimp only at hstep
          rw [hbudget] at hstep
          dsimp only at hstep
          by_cases hover : budget < machine.steps + 1
          · rw [if_pos hover] at hstep
            refine .refused hfetches ?_ hstep
            rw [haffords]
            exact decide_eq_false (Nat.not_lt_of_le (Nat.le_of_lt_succ hover))
          · rw [if_neg hover] at hstep
            refine .counted hfetches ?_ ?_ ?_
            · rw [haffords]
              exact decide_eq_true (Nat.lt_of_succ_le (Nat.le_of_not_lt hover))
            · rw [hstep]
              dsimp only
              split
              · rfl
              · rw [(serve_sequel session _ callers _).spent]
                rfl
            · rw [hstep]
              dsimp only
              split
              · next error herror =>
                exact (execute_not_exceedsBudget _ _ _ _).of_error herror
              · exact (serve_sequel session _ callers _).ends.mono not_exceedsBudget_of_sequel

/-! ## Runs under a budget -/

/-- A run finishes within the budget, or has executed all of it and attempts one instruction
more. -/
inductive Spends (session : Session) (budget fuel : Nat) (e : Execution) : Prop
  | inTime {machine : Machine} {heap : Heap} {result : Except Fault Value}
      (hrun : e.run session fuel = .finished machine heap result)
      (hresult : Faults (¬ ExceedsBudget ·) result)
      (hsteps : machine.steps = e.machine.steps + count session fetches fuel e)
      (hattempted : count session fetches fuel e = count session affords fuel e)
      (hexecuted : e.machine.steps + count session affords fuel e ≤ budget)
  | exceeded {machine : Machine} {heap : Heap}
      (hrun : e.run session fuel = .finished machine heap (.error (.stepBudgetExceeded budget)))
      (hsteps : machine.steps = e.machine.steps + count session fetches fuel e)
      (hattempted : count session fetches fuel e = count session affords fuel e + 1)
      (hexecuted : e.machine.steps + count session affords fuel e = budget)

section

variable {fuel : Nat} {p : Execution → Bool} {machine : Machine} {heap : Heap}
  {result : Except Fault Value} {e' : Execution}

theorem run_of_finished (hstep : e.step session = .finished machine heap result) :
  e.run session (fuel + 1) = .finished machine heap result
  := by
  rw [run, hstep]

theorem run_of_running (hstep : e.step session = .running e') :
  e.run session (fuel + 1) = e'.run session fuel
  := by
  rw [run, hstep]

theorem count_of_finished (hstep : e.step session = .finished machine heap result) :
  count session p (fuel + 1) e = (p e).toNat
  := by
  rw [count, hstep]
  rfl

theorem count_of_running (fuel : Nat) (p : Execution → Bool)
    (hstep : e.step session = .running e') :
  count session p (fuel + 1) e = (p e).toNat + count session p fuel e'
  := by
  rw [count, hstep]

end

/-- A counted instruction is one of the budget. -/
theorem Spends.counted {fuel : Nat} {e' : Execution}
    (hfetches : e.fetches = true) (haffords : e.affords = true)
    (hstep : e.step session = .running e')
    (hsteps : e'.machine.steps = e.machine.steps + 1) (hspends : Spends session budget fuel e') :
  Spends session budget (fuel + 1) e
  := by
  have hfetched := count_of_running fuel fetches hstep
  have hafforded := count_of_running fuel affords hstep
  rw [hfetches, Bool.toNat_true] at hfetched
  rw [haffords, Bool.toNat_true] at hafforded
  cases hspends with
  | inTime hrun hresult hcount hattempted hexecuted =>
      refine .inTime ((run_of_running hstep).trans hrun) hresult ?_ ?_ ?_ <;> omega
  | exceeded hrun hcount hattempted hexecuted =>
      refine .exceeded ((run_of_running hstep).trans hrun) ?_ ?_ ?_ <;> omega

/-- A run with as much fuel as budget finishes, and spends no more than the budget. -/
theorem spends {fuel : Nat} (session : Session)
    (hbudget : e.machine.limits.stepBudget = some budget) (hwithin : e.machine.steps ≤ budget)
    (hfuel : budget < e.machine.steps + fuel) :
  Spends session budget fuel e
  := by
  induction fuel generalizing e with
  | zero => omega
  | succ fuel ih =>
      cases charge session hbudget with
      | idle hfetches hstep hresult =>
          have haffords : e.affords = false := by
            rw [affords, hfetches]
            rfl
          apply Spends.inTime (run_of_finished hstep) hresult
          · rw [count_of_finished hstep, hfetches]
            rfl
          · rw [count_of_finished hstep, count_of_finished hstep, hfetches, haffords]
          · rw [count_of_finished hstep, haffords]
            exact hwithin
      | refused hfetches haffords hstep =>
          apply Spends.exceeded (run_of_finished hstep)
          · rw [count_of_finished hstep, hfetches]
            rfl
          · rw [count_of_finished hstep, count_of_finished hstep, hfetches, haffords]
            rfl
          · rw [count_of_finished hstep, haffords]
            rw [affords, hfetches, hbudget] at haffords
            have hall : ¬ e.machine.steps < budget := of_decide_eq_false haffords
            exact Nat.le_antisymm hwithin (Nat.le_of_not_lt hall)
      | counted hfetches haffords hspent hends =>
          have hleft : e.machine.steps < budget := by
            rw [affords, hfetches, hbudget] at haffords
            exact of_decide_eq_true haffords
          cases hstep : e.step session with
          | running e' =>
              rw [hstep] at hspent
              obtain ⟨hsteps, hlimits⟩ := Prod.mk.inj hspent
              have hsteps : e'.machine.steps = e.machine.steps + 1 := hsteps
              apply Spends.counted hfetches haffords hstep hsteps
              apply ih
              · rw [← hbudget]
                exact congrArg Limits.stepBudget hlimits
              · omega
              · omega
          | finished machine heap result =>
              rw [hstep] at hspent hends
              obtain ⟨hsteps, -⟩ := Prod.mk.inj hspent
              have hsteps : machine.steps = e.machine.steps + 1 := hsteps
              apply Spends.inTime (run_of_finished hstep)
              · cases result with
                | ok v => trivial
                | error error => exact hends
              · rw [count_of_finished hstep, hfetches, hsteps]
                rfl
              · rw [count_of_finished hstep, count_of_finished hstep, hfetches, haffords]
              · rw [count_of_finished hstep, haffords]
                exact hleft

end Execution

/-! ## Calls of the host -/

namespace Launch

/-- How many programs on the run have a property. -/
def count (session : Session) (p : Execution → Bool) (l : Launch) : Nat :=
  match l.entered with
  | .running e => e.count session p l.host.machine.limits.fuel
  | .finished _ _ _ => 0

/-- How many instructions the run executes. -/
def executed (session : Session) (l : Launch) : Nat :=
  l.count session Execution.affords

/-- How many instructions the run attempts, one that exceeds the budget included. -/
def attempted (session : Session) (l : Launch) : Nat :=
  l.count session Execution.fetches

/-- What a run comes to that the host starts under a budget. -/
structure Budgeted (session : Session) (budget : Nat) (l : Launch) : Prop where
  finished : (l.status session).answer ≠ .error .unfinished
  executed : l.executed session ≤ budget
  /-- Every instruction that is attempted is executed, unless the budget is exceeded. -/
  attempted : l.attempted session = l.executed session
    ∨ l.executed session = budget ∧ l.attempted session = budget + 1
      ∧ (l.status session).answer = .error (.fault (.stepBudgetExceeded budget))
  steps : (l.status session).host.machine.steps = l.attempted session

variable {session : Session} {budget : Nat} {l : Launch}

/-- A method that is not entered ends the run at once. -/
theorem error_of_not_entered {machine : Machine} {heap : Heap} {result : Except Fault Value}
    (hentered : l.entered = .finished machine heap result) :
  machine = l.start.machine ∧ ∃ error, result = .error error ∧ ¬ Execution.ExceedsBudget error
  := by
  have hends : l.entered.Ends (¬ Execution.ExceedsBudget ·) :=
    (l.start.enter_sequel l.method l.args l.typeArgs .dropResult 0).ends.mono
      Execution.not_exceedsBudget_of_sequel
  rw [hentered] at hends
  rw [entered, Execution.enter] at hentered
  split at hentered
  · cases hentered
    exact ⟨rfl, _, rfl, hends⟩
  · split at hentered
    · cases hentered
    · cases hentered
      exact ⟨rfl, _, rfl, hends⟩

theorem budgeted (session : Session) (hbudget : l.host.machine.limits.stepBudget = some budget) :
  l.Budgeted session budget
  := by
  have hfuel : l.host.machine.limits.fuel = budget + 1 := by
    rw [Limits.fuel, hbudget]
  cases h : l.entered with
  | finished machine heap result =>
      have hstatus : l.status session = .finished machine heap result := by
        rw [status, h]
      have hcount : ∀ p, l.count session p = 0 := by
        intro p
        rw [count, h]
      obtain ⟨rfl, error, rfl, -⟩ := error_of_not_entered h
      constructor
      · rw [hstatus]
        rintro ⟨⟩
      · rw [executed, hcount]
        exact Nat.zero_le budget
      · rw [attempted, executed, hcount, hcount]
        exact .inl rfl
      · rw [hstatus, attempted, hcount]
        rfl
  | running e =>
      have hstatus : l.status session = e.run session (budget + 1) := by
        rw [status, h, ← hfuel]
      have hcount : ∀ p, l.count session p = e.count session p (budget + 1) := by
        intro p
        rw [count, h, ← hfuel]
      have hspent := (l.start.enter_sequel l.method l.args l.typeArgs .dropResult 0).spent
      rw [entered] at h
      rw [h] at hspent
      obtain ⟨hsteps, hlimits⟩ := Prod.mk.inj hspent
      have hsteps : e.machine.steps = 0 := hsteps
      have hspends : e.Spends session budget (budget + 1) := by
        apply Execution.spends
        · rw [← hbudget]
          exact congrArg Limits.stepBudget hlimits
        · omega
        · omega
      cases hspends with
      | @inTime machine heap result hrun hresult hcounted hattempted hexecuted =>
          rw [hsteps, Nat.zero_add] at hcounted hexecuted
          rw [hrun] at hstatus
          constructor
          · rw [hstatus]
            cases result <;> rintro ⟨⟩
          · rw [executed, hcount]
            exact hexecuted
          · rw [attempted, executed, hcount, hcount]
            exact .inl hattempted
          · rw [hstatus, attempted, hcount]
            exact hcounted
      | exceeded hrun hcounted hattempted hexecuted =>
          rw [hsteps, Nat.zero_add] at hcounted hexecuted
          rw [hrun] at hstatus
          constructor
          · rw [hstatus]
            rintro ⟨⟩
          · rw [executed, hcount]
            exact Nat.le_of_eq hexecuted
          · rw [attempted, executed, hcount, hcount, hattempted, hexecuted, hstatus]
            exact .inr ⟨rfl, rfl, rfl⟩
          · rw [hstatus, attempted, hcount]
            exact hcounted

/-- A program that has just been entered ends in a fault if its method has no instruction. -/
theorem error_of_not_fetches (session : Session) {e : Execution}
    (hentered : l.entered = .running e) (hfetches : e.fetches = false) :
  ∃ error, e.step session = e.fail error
  := by
  rw [entered, Execution.enter] at hentered
  split at hentered
  · cases hentered
  · next body hbody =>
    split at hentered
    · cases hentered
      have hnone : body.instructions[0]? = none := by
        rw [Execution.fetches] at hfetches
        exact Option.not_isSome_iff_eq_none.mp (Bool.eq_false_iff.mp hfetches)
      rw [Execution.step]
      dsimp only [Frame.enter]
      rw [hnone]
      exact ⟨_, rfl⟩
    · cases hentered

/-- A run that answers has executed an instruction. -/
theorem attempted_pos {v : Value}
    (hbudget : l.host.machine.limits.stepBudget = some budget)
    (hanswer : (l.status session).answer = .ok v) :
  0 < l.attempted session
  := by
  have hfuel : l.host.machine.limits.fuel = budget + 1 := by
    rw [Limits.fuel, hbudget]
  cases h : l.entered with
  | finished machine heap result =>
      obtain ⟨-, error, rfl, -⟩ := error_of_not_entered h
      rw [status, h] at hanswer
      cases hanswer
  | running e =>
      cases hfetches : e.fetches with
      | true =>
          rw [attempted, count, h]
          dsimp only
          rw [hfuel, Execution.count, hfetches, Bool.toNat_true]
          omega
      | false =>
          obtain ⟨error, hstep⟩ := error_of_not_fetches session h hfetches
          rw [status, h] at hanswer
          dsimp only at hanswer
          rw [hfuel, Execution.run_of_finished hstep] at hanswer
          cases hanswer

end Launch

/-- The limits of a machine stay what they are. -/
theorem Execution.step_limits (session : Session) (e : Execution) :
  (e.step session).spent.2 = e.machine.limits
  := by
  have htick := e.machine.tick_limits
  rw [step]
  split
  · rfl
  · split
    · rfl
    · split
      · next error machine hmachine =>
        rw [hmachine] at htick
        exact htick
      · next machine hmachine =>
        rw [hmachine] at htick
        dsimp only
        split
        · exact htick
        · rw [(serve_sequel session _ _ _).spent]
          exact htick

theorem Execution.run_limits (session : Session) (fuel : Nat) (e : Execution) :
  (e.run session fuel).spent.2 = e.machine.limits
  := by
  induction fuel generalizing e with
  | zero => rfl
  | succ fuel ih =>
      have hstep := e.step_limits session
      rw [run]
      split
      · next e' he' =>
        rw [he'] at hstep
        exact (ih e').trans hstep
      · exact hstep

theorem Launch.status_limits (session : Session) (l : Launch) :
  (l.status session).host.machine.limits = l.host.machine.limits
  := by
  have hhost : (l.status session).host.machine.limits = (l.status session).spent.2 := by
    cases l.status session <;> rfl
  have hentered : l.entered.spent.2 = l.host.machine.limits :=
    congrArg Prod.snd (l.start.enter_sequel l.method l.args l.typeArgs .dropResult 0).spent
  rw [hhost, status]
  split
  · next e he =>
    rw [he] at hentered
    exact (e.run_limits session _).trans hentered
  · exact hentered

namespace HostState

variable {session : Session} {host host' : HostState} {launches : List Launch} {budget : Nat}

theorem Changes.spent (hchanges : host.Changes session host') :
  host'.machine.spent = host.machine.spent
  := by
  cases hchanges with
  | prepare id => exact host.machine.prepare_spent session id
  | setStatic hset => exact Machine.setStatic_spent hset
  | allocObject id slots => rfl
  | setSlot hset => rfl

/-- All runs of a call have the limits of the machine. -/
theorem Course.limits (hcourse : host.Course session launches host') :
  ∀ l ∈ launches, l.host.machine.limits = host.machine.limits
  := by
  induction hcourse with
  | refl =>
      rintro l ⟨⟩
  | change hchange _ ih =>
      rw [(Prod.mk.inj hchange.spent).2] at ih
      exact ih
  | run l _ ih =>
      rw [l.status_limits] at ih
      exact List.forall_mem_cons.mpr ⟨rfl, ih⟩

/-- The count of instructions is that of the last run. -/
theorem Course.steps
    (hcourse : host.Course session launches host')
    (hbudget : host.machine.limits.stepBudget = some budget) :
  host'.machine.steps = (launches.getLast?.map (·.attempted session)).getD host.machine.steps
  := by
  induction hcourse with
  | refl => rfl
  | change hchange _ ih =>
      obtain ⟨hsteps, hlimits⟩ := Prod.mk.inj hchange.spent
      rw [← hlimits] at hbudget
      rw [ih hbudget, hsteps]
  | run l hrest ih =>
      have hlast := ih (l.status_limits session ▸ hbudget)
      rw [(l.budgeted session hbudget).steps] at hlast
      rw [hlast, List.getLast?_cons]
      cases List.getLast? _ <;> rfl

end HostState

namespace HostCall

variable {session : Session} {call : HostCall} {host : HostState} {budget : Nat}

/-- How many instructions a call executes in all. -/
def executed (session : Session) (call : HostCall) (host : HostState) : Nat :=
  ((call.launches session host).map (·.executed session)).sum

/-- How many instructions a call attempts in all. -/
def attempted (session : Session) (call : HostCall) (host : HostState) : Nat :=
  ((call.launches session host).map (·.attempted session)).sum

/-- Under a budget, every run that a call starts is held to the budget.  A call that starts one run
is held to it as well and leaves the count of its instructions behind; one that starts two runs
leaves less than that. -/
theorem budget_per_run
    (session : Session) (call : HostCall) (host : HostState)
    (hbudget : host.machine.limits.stepBudget = some budget) :
  (call.launches session host).length ≤ 2
  ∧ (∀ l ∈ call.launches session host,
      l.executed session ≤ budget ∧ (l.status session).answer ≠ .error .unfinished)
  ∧ (call.launches session host ≠ [] →
      (((call.perform session).exec host).2.machine.steps = call.attempted session host
        ↔ (call.launches session host).length = 1))
  ∧ ((call.launches session host).length = 1 →
      call.executed session host ≤ budget
      ∧ (call.attempted session host = call.executed session host
        ∨ call.executed session host = budget ∧ call.attempted session host = budget + 1
          ∧ ((call.perform session).exec host).1 = .error (.fault (.stepBudgetExceeded budget))))
  := by
  have hruns := call.runs session host
  have hsteps := hruns.course.steps hbudget
  have hbudgeted : ∀ l ∈ call.launches session host, l.Budgeted session budget := by
    intro l hl
    apply Launch.budgeted
    rw [hruns.course.limits l hl]
    exact hbudget
  have heach : ∀ l ∈ call.launches session host,
      l.executed session ≤ budget ∧ (l.status session).answer ≠ .error .unfinished :=
    fun l hl => ⟨(hbudgeted l hl).executed, (hbudgeted l hl).finished⟩
  have hfew := call.few session host
  have hfails := hruns.fails
  have hlimits := hruns.course.limits
  rw [attempted, executed]
  generalize call.launches session host = launches at *
  refine ⟨?_, heach, ?_⟩
  · cases hfew <;> simp
  · cases hfew with
    | none => exact ⟨fun hnone => absurd rfl hnone, fun hone => by cases hone⟩
    | one l =>
        have hl := hbudgeted l List.mem_cons_self
        refine ⟨fun _ => ⟨fun _ => rfl, fun _ => hsteps⟩, fun _ => ⟨hl.executed, ?_⟩⟩
        rcases hl.attempted with hall | ⟨hexecuted, hattempted, hanswer⟩
        · exact .inl hall
        · exact .inr ⟨hexecuted, hattempted, hfails l rfl _ hanswer⟩
    | two first second hfirst =>
        have hbudget' : first.host.machine.limits.stepBudget = some budget := by
          rw [hlimits first List.mem_cons_self]
          exact hbudget
        have hpos := Launch.attempted_pos hbudget' hfirst
        refine ⟨fun _ => ⟨fun htotal => ?_, fun hone => by cases hone⟩, fun hone => by cases hone⟩
        have htotal : second.attempted session
            = first.attempted session + (second.attempted session + 0) := hsteps.symm.trans htotal
        omega

end HostCall

/-! ## An initializer and a method -/

/-- A number of instructions that do nothing, and a return. -/
def idlingBody (instructions : Nat) : MethodBody :=
  { instructions := (Array.replicate instructions ⟨.nop, .none⟩).push ⟨.ret, .none⟩
    labels := #[]
    locals := #[]
    regions := []
    maxStack := 0 }

def idlingMethod (index : Nat) (kind : MethodKind) (instructions : Nat) : RealizedMethod :=
  { (default : RealizedMethod) with
    handle := ⟨⟨1⟩, index⟩
    kind := kind
    attributes := { isStatic := true }
    returnType := .void
    body := some (idlingBody instructions) }

/-- A type whose initializer executes three instructions, and its static method two. -/
def idlingType : RealizedType :=
  { (default : RealizedType) with
    handle := { (default : DefinedType) with id := ⟨1⟩ }
    methods := [idlingMethod 0 .typeInitializer 2, idlingMethod 1 .method 1]
    typeInitializer := some ⟨⟨1⟩, 0⟩ }

def idlingSession : Session :=
  { types := [idlingType] }

/-- A host whose machine has a budget and has set up some types. -/
def idlingHost (budget : Nat) (initialized : List TypeId) : HostState :=
  { machine := { limits := { stepBudget := some budget }, initialized := initialized }
    heap := {} }

def idlingCall : HostCall :=
  .call ⟨⟨1⟩, 1⟩ none []

/-- Once the type is set up, a call of the method executes the one instruction of the budget and
fails at the second one. -/
theorem idlingCall_budget_per_run :
  (idlingCall.launches idlingSession (idlingHost 1 [⟨1⟩])).length = 1
  ∧ idlingCall.executed idlingSession (idlingHost 1 [⟨1⟩]) ≤ 1
  ∧ ((idlingCall.perform idlingSession).exec (idlingHost 1 [⟨1⟩])).2.machine.steps = 2
  := by
  obtain ⟨-, -, hsteps, hone⟩ :=
    HostCall.budget_per_run idlingSession idlingCall (idlingHost 1 [⟨1⟩]) rfl
  refine ⟨rfl, (hone rfl).1, ?_⟩
  exact ((hsteps (by rintro ⟨⟩)).mpr rfl).trans rfl

/-- With a budget of three instructions, a call that sets up the type executes five of them and
leaves a count of two. -/
theorem HostCall.not_budget_per_call :
  ¬ ∀ (session : Session) (call : HostCall) (host : HostState) (budget : Nat),
      host.machine.limits.stepBudget = some budget → call.launches session host ≠ [] →
      call.executed session host ≤ budget
      ∧ ((call.perform session).exec host).2.machine.steps = call.attempted session host
  := by
  intro hclaim
  have hexecuted : idlingCall.executed idlingSession (idlingHost 3 []) = 5 := rfl
  obtain ⟨hle, -⟩ := hclaim idlingSession idlingCall (idlingHost 3 []) 3 rfl (by rintro ⟨⟩)
  rw [hexecuted] at hle
  exact absurd hle (by decide)

end ManagedCode
