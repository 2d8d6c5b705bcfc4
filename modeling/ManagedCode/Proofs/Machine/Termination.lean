import ManagedCode.Proofs.Machine.Coherence
import ManagedCode.Proofs.Machine.Recursion
import ManagedCode.Proofs.Machine.Worlds

/-!
# Termination

A machine with a budget of instructions ends every call of a host, whatever the program does.  Every
step of a program counts one instruction (`Execution.add_le_of_running`), and a call does nothing
without end but run programs (`HostState.confined_budget`).  Methods that call each other return,
since their calls are those of a run that ends.  The loops that climb base links end because the
links of realized types form no cycle.
-/

namespace ManagedCode

variable {session : Session} {budget : Nat}

/-! ## Programs under a budget -/

/-- A program that is still running has counted every step, and the budget has not been exceeded. -/
theorem Execution.add_le_of_running
    {e e' : Execution} {n : Nat} (hbudget : e.machine.limits.stepBudget = some budget)
    (hwithin : e.machine.steps ≤ budget) (hrun : e.run session n = .running e') :
  e.machine.steps + n ≤ budget
  := by
  induction n generalizing e with
  | zero => exact hwithin
  | succ n ih =>
      cases charge session hbudget with
      | idle _ hstep _ =>
          rw [run_of_finished hstep] at hrun
          cases hrun
      | refused _ _ hstep =>
          rw [run_of_finished hstep] at hrun
          cases hrun
      | counted hfetches haffords hspent _ =>
          have hleft : e.machine.steps < budget := by
            rw [affords, hfetches, hbudget] at haffords
            exact of_decide_eq_true haffords
          cases hstep : e.step session with
          | finished machine heap result =>
              rw [run_of_finished hstep] at hrun
              cases hrun
          | running e₁ =>
              rw [run_of_running hstep] at hrun
              rw [hstep] at hspent
              obtain ⟨hsteps, hlimits⟩ := Prod.mk.inj hspent
              have hsteps : e₁.machine.steps = e.machine.steps + 1 := hsteps
              have hbudget₁ : e₁.machine.limits.stepBudget = some budget :=
                (congrArg Limits.stepBudget hlimits).trans hbudget
              have := ih hbudget₁ (by omega) hrun
              omega

/-- A program that the host starts takes no more steps than the budget without having ended. -/
theorem Launch.le_of_running
    {l : Launch} {e e' : Execution} {n : Nat}
    (hbudget : l.host.machine.limits.stepBudget = some budget) (hentered : l.entered = .running e)
    (hrun : e.run session n = .running e') :
  n ≤ budget
  := by
  have hspent := (l.start.enter_sequel l.method l.args l.typeArgs .dropResult 0).spent
  rw [entered] at hentered
  rw [hentered] at hspent
  obtain ⟨hsteps, hlimits⟩ := Prod.mk.inj hspent
  have hsteps : e.machine.steps = 0 := hsteps
  have hbudget : e.machine.limits.stepBudget = some budget :=
    (congrArg Limits.stepBudget hlimits).trans hbudget
  have := Execution.add_le_of_running hbudget (by omega) hrun
  omega

/-! ## Calls under a budget -/

/-- Whatever a host does, the budget stays, and nothing is left unfinished. -/
theorem HostState.confined_budget (session : Session) (budget : Nat) :
  Confined session (fun host => host.machine.limits.stepBudget = some budget) (· ≠ .unfinished)
  := by
  constructor
  case toStable =>
    constructor
    case prepare =>
      intro host id h
      exact (congrArg (·.2.stepBudget) (host.machine.prepare_spent session id)).trans h
    case run =>
      intro l h
      rw [l.status_limits]
      exact h
    case setStatic =>
      intro host machine id slot v h hset
      exact (congrArg (·.2.stepBudget) (Machine.setStatic_spent hset)).trans h
    case allocObject => exact fun _ h => h
    case setSlot => exact fun h _ => h
  case fault => exact fun _ => nofun
  case halts =>
    rintro l halt h hanswer rfl
    exact (l.budgeted session h).finished hanswer

/-- A call of a host comes to its end. -/
structure HostCall.Ends (session : Session) (budget : Nat) (call : HostCall) (host : HostState) :
    Prop where
  /-- The call answers with a value or a fault. -/
  answers : ((call.perform session).exec host).1 ≠ .error .unfinished
  /-- No program that the call starts goes on for more steps than the budget. -/
  programs : ∀ l ∈ call.launches session host, ∀ e, l.entered = .running e →
    ∀ n e', e.run session n = .running e' → n ≤ budget
  /-- As a recursion, the call returns with no method active. -/
  returns : Nested.Course session ⟨host, 0⟩ (call.launches session host)
    ⟨((call.perform session).exec host).2, 0⟩

theorem HostCall.ends
    {host : HostState} (hbudget : host.machine.limits.stepBudget = some budget)
    (session : Session) (call : HostCall) :
  call.Ends session budget host
  := by
  have hconfined := HostState.confined_budget session budget
  have hcourse := (call.runs session host).course
  have hanswer : ((call.perform session).exec host).1 ≠ .error .unfinished :=
    fun hunfinished => (hconfined.perform call host hbudget).2 _ hunfinished rfl
  constructor
  case answers => exact hanswer
  case programs =>
    intro l hl e hentered n e' hrun
    exact Launch.le_of_running (hconfined.launches call hbudget l hl) hentered hrun
  case returns =>
    exact hcourse.nested (call.launches_callable session host) (finished_of_answer hanswer)

/-! ## Sessions -/

/-- The loops that climb the base links of a session come to their ends, with the answers of the
searches along the lineage of a type. -/
structure Session.Bounded (s : Session) : Prop where
  searches : ∀ {α : Type} (f : RealizedType → Option α) (x : TypeId),
    s.Climbs (Session.search f) (.ok none) x (s.findOnLineage x f)
  descents : ∀ x target, s.Climbs (Session.descent target) false x (s.reaches x target)

namespace World

variable {ρ : Type}

theorem bounded_after (verify : Bool) (history : List (Act ρ)) :
  ((empty verify).after history).project.session.Bounded
  := by
  rw [project_after]
  have hstacked := Project.stacked_run verify (history.filterMap Act.event?)
  exact ⟨fun f x => (Session.leads_lineage hstacked x).search f,
    fun x target => (Session.leads_lineage hstacked x).descent target⟩

/-- Whatever a host has built and done before, every call of a machine with a budget comes to its
end, and so does every loop that climbs base links while it does. -/
theorem calls_end
    (verify : Bool) (history : List (Act ρ)) {k : Nat} {machine : Machine}
    (hk : ((empty verify).after history).machines[k]? = some machine)
    (hbudget : machine.limits.stepBudget = some budget) (call : HostCall) :
  (∃ answer host, ((empty verify).after history).answer? k call = some (answer, host)
    ∧ answer ≠ .error .unfinished)
  ∧ call.Ends ((empty verify).after history).project.session budget
    ⟨machine, ((empty verify).after history).heap⟩
  ∧ ((empty verify).after history).project.session.Bounded
  := by
  have hbounded := bounded_after verify history
  generalize (empty verify).after history = w at *
  have hends : call.Ends w.project.session budget ⟨machine, w.heap⟩ :=
    HostCall.ends hbudget w.project.session call
  have hanswer : w.answer? k call
      = some ((call.perform w.project.session).exec ⟨machine, w.heap⟩) := by
    rw [answer?, hk]
    rfl
  exact ⟨⟨_, _, hanswer, hends.answers⟩, hends, hbounded⟩

/-- A class with a method that never returns, and a machine with a budget. -/
def looping : List (Act Unit) :=
  [ .session (.build (.openUnit "A")),
    .session (.build (.change 0 (.declareType "T" .classType {} none))),
    .session (.build (.change 0
      (.defineMethod ⟨1⟩ "Loop"
        { modifier := .isStatic, params := some [], returnType := some .void }
        (.generate fun _ e =>
          let (l, e) := e.defineLabel
          .ok ((e.markLabel l).emitLabel (.branch .always .long) l, []))))),
    .session (.build (.change 0 .finalize)),
    .machine { stepBudget := some 5 } true ]

/-- The method is ended by the budget. -/
theorem looping_ends :
  (((empty true).after looping).answer? 0 (.callStatic ⟨1⟩ "Loop" [])).map (·.1)
    = some (.error (.fault (.stepBudgetExceeded 5)))
  ∧ (HostCall.callStatic ⟨1⟩ "Loop" []).Ends ((empty true).after looping).project.session 5
    ⟨{ limits := { stepBudget := some 5 } }, ((empty true).after looping).heap⟩
  := by
  obtain ⟨-, hends, -⟩ := calls_end true looping (k := 0) rfl rfl (.callStatic ⟨1⟩ "Loop" [])
  exact ⟨rfl, hends⟩

end World

end ManagedCode
