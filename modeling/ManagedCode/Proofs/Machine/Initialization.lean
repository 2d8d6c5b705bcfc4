import ManagedCode.Proofs.Machine.StaticSides

/-!
# Programs and the static sides of types

What happens to the static sides of types in one instruction (`Execution.stepping`) and while a
program runs (`Execution.running`).  The instruction that needs the static side of a type has it set
up, and goes on at once or when the initializer has returned.  So whatever waits in a frame waits
for a type that is ready, and a log that accounts for the machine at the start of a run accounts for
what the run leaves (`Execution.Accounted`, `Launch.status_accounted`).
-/

namespace ManagedCode

open StaticLog

/-! ## What happens in a program -/

namespace Deferred

/-- The use that an instruction makes of the static side of a type once that is set up. -/
def use : Deferred → StaticEvent
  | load owner slot => .reads owner slot
  | store owner slot v => .writes owner slot v
  | call m _ _ => .calls m
  | construct t _ _ _ => .constructs t

/-- The type whose static side is used. -/
def owner : Deferred → TypeId
  | load owner _ | store owner _ _ => owner
  | call m _ _ => m.handle.owner
  | construct t _ _ _ => t.id

theorem use_used (rest : Deferred) : rest.use.used? = some rest.owner := by
  cases rest <;> rfl

end Deferred

namespace Execution

/-- What happens when an instruction has the static side of a type set up.  It goes on itself
unless the initializer has to run first. -/
def preparing (session : Session) (e : Execution) (owner : TypeId) (rest : Deferred) : StaticLog :=
  e.machine.preparing session owner
    ++ match (e.machine.prepare session owner).1 with
      | .ok none => [rest.use]
      | _ => []

/-- What happens when a frame returns: a caller may have waited for an initializer. -/
def finishing (f : Frame) : List Frame → StaticLog
  | [] => []
  | _ :: _ =>
    match f.resume with
    | .perform rest => [rest.use]
    | _ => []

/-- What happens as the machine serves a request.  A method that is invoked at once, as it is or by
dispatch, may be static for all that the request tells. -/
def serving (session : Session) (e : Execution) (callers : List Frame) : Request → StaticLog
  | .finish _ =>
    match e.frames with
    | f :: _ => finishing f callers
    | [] => []
  | .prepare _ owner rest => e.preparing session owner rest
  | .invoke _ m _ _ _ => if m.isStatic then [.calls m] else []
  | .proceed _ | .raise _ _ => []

/-- What happens in one instruction. -/
def stepping (session : Session) (e : Execution) : StaticLog :=
  match e.frames with
  | [] => []
  | f :: callers =>
    match f.body.instructions[f.ip]? with
    | none => []
    | some i =>
      match e.machine.tick with
      | (.error _, _) => []
      | (.ok (), machine) =>
        match Surroundings.execute ⟨session, machine.limits.maxStackDepth⟩ e.heap f i with
        | .error _ => []
        | .ok (request, heap) =>
          { e with machine := machine, heap := heap }.serving session callers request

/-- What happens while a program runs. -/
def running (session : Session) : Nat → Execution → StaticLog
  | 0, _ => []
  | fuel + 1, e =>
    e.stepping session
      ++ match e.step session with
        | .running e => running session fuel e
        | .finished _ _ _ => []

end Execution

/-- What happens in a run that the host starts. -/
def Launch.events (session : Session) (l : Launch) : StaticLog :=
  match l.entered with
  | .running e => e.running session l.host.machine.limits.fuel
  | .finished _ _ _ => []

/-! ## Programs with an account -/

/-- If an instruction waits for a frame to return, its type is ready. -/
def Resume.Backed (runs : Bool) (log : StaticLog) (resume : Resume) : Prop :=
  ∀ rest, resume = .perform rest → Ready runs log rest.owner

theorem Resume.Backed.more {runs : Bool} {log : StaticLog} {resume : Resume}
    (h : resume.Backed runs log) (more : StaticLog) :
  resume.Backed runs (log ++ more)
  := fun rest hrest => (h rest hrest).more more

theorem Surroundings.resumeFor_backed (m : RealizedMethod) (runs : Bool) (log : StaticLog) :
  (resumeFor m).Backed runs log
  := by
  rw [resumeFor]
  split <;> rintro rest ⟨⟩

/-- A log accounts for the machine of a program, and what waits in its frames waits for types that
are ready. -/
structure Execution.Accounted (Known : RealizedType → Prop) (runs : Bool) (log : StaticLog)
    (e : Execution) : Prop where
  ledger : Ledger Known runs log e.machine
  waiting : ∀ f ∈ e.frames, f.resume.Backed runs log

/-- A log accounts for a program, or for what it has left. -/
def Status.Accounted (Known : RealizedType → Prop) (runs : Bool) (log : StaticLog) : Status → Prop
  | .running e => e.Accounted Known runs log
  | .finished machine _ _ => Ledger Known runs log machine

section

variable {session : Session} {Known : RealizedType → Prop} {runs : Bool} {log : StaticLog}
  {e : Execution} {f : Frame} {callers : List Frame}

theorem Status.Accounted.ledger {status : Status} (h : status.Accounted Known runs log) :
  Ledger Known runs log status.host.machine
  := by
  cases status with
  | running e => exact Execution.Accounted.ledger h
  | finished machine heap result => exact h

namespace Execution

theorem accounted_withFrame_iff :
  (e.withFrame f callers).Accounted Known runs log
    ↔ Ledger Known runs log e.machine ∧ f.resume.Backed runs log
      ∧ ∀ g ∈ callers, g.resume.Backed runs log
  := by
  constructor
  · rintro ⟨hledger, hwaiting⟩
    exact ⟨hledger, List.forall_mem_cons.mp hwaiting⟩
  · rintro ⟨hledger, hwaiting⟩
    exact ⟨hledger, List.forall_mem_cons.mpr hwaiting⟩

theorem enter_accounted
    (h : e.Accounted Known runs log) {resume : Resume} (hresume : resume.Backed runs log)
    (m : RealizedMethod) (args : List Value) (typeArgs : List TypeRef) :
  (e.enter m args typeArgs resume).Accounted Known runs log
  := by
  rw [enter]
  split
  · exact h.ledger
  · split
    · exact ⟨h.ledger, List.forall_mem_cons.mpr ⟨hresume, h.waiting⟩⟩
    · exact h.ledger

theorem complete_accounted (h : (e.withFrame f callers).Accounted Known runs log) (v : Value) :
  (e.complete f callers v).Accounted Known runs log
  := by
  obtain ⟨hledger, hf, hcallers⟩ := accounted_withFrame_iff.mp h
  rw [complete]
  split
  · next g hpush =>
    have hresume : g.advance.resume = f.resume := (Frame.push_ok hpush).1.resume
    exact accounted_withFrame_iff.mpr ⟨hledger, hresume ▸ hf, hcallers⟩
  · exact hledger

/-- An instruction goes on with a type that is ready, and uses its static side. -/
theorem perform_accounted
    (h : (e.withFrame f callers).Accounted Known runs log) {rest : Deferred}
    (hready : Ready runs log rest.owner) :
  (e.perform f callers rest).Accounted Known runs (log ++ [rest.use])
  := by
  obtain ⟨hledger, hf, hcallers⟩ := accounted_withFrame_iff.mp h
  have hmore : f.resume.Backed runs (log ++ [rest.use])
      ∧ ∀ g ∈ callers, g.resume.Backed runs (log ++ [rest.use]) :=
    ⟨hf.more _, fun g hg => (hcallers g hg).more _⟩
  have hused := rest.use_used
  cases rest with
  | load owner slot =>
      have hread : Ledger Known runs _ e.machine := hledger.use hused hready rfl
      rw [perform]
      split
      · exact complete_accounted (accounted_withFrame_iff.mpr ⟨hread, hmore⟩) _
      · exact hread
  | store owner slot v =>
      have hwritten := hledger.setStatic (show Ready runs log owner from hready) slot v
      rw [perform]
      cases hset : e.machine.setStatic owner slot v with
      | ok machine =>
          rw [hset] at hwritten
          exact ⟨hwritten, List.forall_mem_cons.mpr hmore⟩
      | error error =>
          rw [hset] at hwritten
          exact hwritten
  | call m args typeArgs =>
      have hcalled : Ledger Known runs _ e.machine := hledger.use hused hready rfl
      rw [perform]
      apply enter_accounted (accounted_withFrame_iff.mpr ⟨hcalled, hmore⟩)
      apply Surroundings.resumeFor_backed
  | construct t m args typeArgs =>
      have hconstructed : Ledger Known runs _ e.machine := hledger.use hused hready rfl
      have hframes := fun heap => accounted_withFrame_iff (e := { e with heap := heap }).mpr
        ⟨hconstructed, hmore⟩
      have hobject : ∀ {log} object, Resume.Backed runs log (.pushObject object) := by
        rintro log object rest ⟨⟩
      exact enter_accounted (hframes _) (hobject _) m _ typeArgs

/-- The static side of a type is set up, and the instruction goes on or waits for the
initializer. -/
theorem prepare_accounted
    (hsession : session.Addressed) (hknown : ∀ t ∈ session.types, Known t)
    (h : (e.withFrame f callers).Accounted Known runs log) {rest : Deferred}
    (hrealized : ∃ t, session.realized? rest.owner = some t) :
  (e.prepare session f callers rest.owner rest).Accounted Known runs
    (log ++ e.preparing session rest.owner rest)
  := by
  obtain ⟨hledger, hf, hcallers⟩ := accounted_withFrame_iff.mp h
  obtain ⟨hprepared, hready, initializer, hanswer⟩ := hledger.prepare hsession hknown hrealized
  have hmore : f.resume.Backed runs (log ++ e.machine.preparing session rest.owner)
      ∧ ∀ g ∈ callers, g.resume.Backed runs (log ++ e.machine.preparing session rest.owner) :=
    ⟨hf.more _, fun g hg => (hcallers g hg).more _⟩
  rw [preparing, hanswer, prepare]
  cases hmachine : e.machine.prepare session rest.owner with
  | mk answer machine =>
      rw [hmachine] at hanswer hprepared
      obtain rfl : answer = .ok initializer := hanswer
      cases initializer with
      | none =>
          rw [← List.append_assoc]
          exact perform_accounted (e := { e with machine := machine })
            (accounted_withFrame_iff.mpr ⟨hprepared, hmore⟩) hready
      | some m =>
          dsimp only
          rw [List.append_nil]
          have hresume : Resume.Backed runs (log ++ e.machine.preparing session rest.owner)
              (.perform rest) := by
            rintro _ ⟨⟩
            exact hready
          exact enter_accounted (e := { e with machine := machine }.withFrame f callers)
            (accounted_withFrame_iff.mpr ⟨hprepared, hmore⟩) hresume m [] []

theorem finish_accounted
    (hledger : Ledger Known runs log e.machine) (hf : f.resume.Backed runs log)
    (hcallers : ∀ g ∈ callers, g.resume.Backed runs log) (v : Value) :
  (e.finish f callers v).Accounted Known runs (log ++ finishing f callers)
  := by
  cases callers with
  | nil =>
      rw [finishing, List.append_nil]
      exact hledger
  | cons caller callers =>
      have h : (e.withFrame caller callers).Accounted Known runs log := ⟨hledger, hcallers⟩
      rw [finishing, finish]
      cases hresume : f.resume with
      | pushResult =>
          dsimp only
          rw [List.append_nil]
          exact complete_accounted h v
      | dropResult =>
          dsimp only
          rw [List.append_nil]
          exact ⟨hledger, List.forall_mem_cons.mpr (List.forall_mem_cons.mp hcallers)⟩
      | pushObject object =>
          dsimp only
          rw [List.append_nil]
          exact complete_accounted h object
      | perform rest => exact perform_accounted h (hf rest hresume)

/-- Unwinding leaves frames that wait as before. -/
theorem unwind_backed
    {limit : Nat} {exception : Value} {frames frames' : List Frame}
    (hunwind : Frame.unwind session limit exception frames = .ok frames')
    (hframes : ∀ g ∈ frames, g.resume.Backed runs log) :
  ∀ g ∈ frames', g.resume.Backed runs log
  := by
  induction frames with
  | nil =>
      cases hunwind
      exact hframes
  | cons f callers ih =>
      obtain ⟨hf, hcallers⟩ := List.forall_mem_cons.mp hframes
      rw [Frame.unwind] at hunwind
      cases hraise : f.raise session limit exception with
      | error error =>
          rw [hraise] at hunwind
          cases hunwind
      | ok answer =>
          rw [hraise] at hunwind
          cases answer with
          | some g =>
              cases hunwind
              rw [← (Frame.raise_sameCall hraise).resume] at hf
              exact List.forall_mem_cons.mpr ⟨hf, hcallers⟩
          | none => exact ih hunwind hcallers

theorem raise_accounted
    (h : (e.withFrame f callers).Accounted Known runs log) (exception : Value) :
  (e.raise session f callers exception).Accounted Known runs log
  := by
  rw [raise]
  split
  · exact h.ledger
  · exact h.ledger
  · next hunwind => exact ⟨h.ledger, unwind_backed hunwind h.waiting⟩

end Execution

namespace Surroundings

variable {s : Surroundings} {heap heap' : Heap} {i : Instruction} {g : Frame} {owner : TypeId}
  {rest : Deferred}

theorem loadStatic_prepare (hload : s.loadStatic f i = .ok (.prepare g owner rest)) :
  ∃ handle field, s.session.fieldAt handle = .ok field ∧ field.handle.owner = owner
  := by
  rw [loadStatic] at hload
  obtain ⟨handle, -, hload⟩ := exists_of_bind_ok hload
  obtain ⟨field, hfield, hload⟩ := exists_of_bind_ok hload
  split at hload
  · cases hload
    exact ⟨handle, field, hfield, rfl⟩
  · obtain ⟨_, -, hload⟩ := exists_of_bind_ok hload
    cases hload
  · cases hload

theorem storeStatic_prepare (hstore : s.storeStatic f i = .ok (.prepare g owner rest)) :
  ∃ handle field, s.session.fieldAt handle = .ok field ∧ field.handle.owner = owner
  := by
  rw [storeStatic] at hstore
  obtain ⟨handle, -, hstore⟩ := exists_of_bind_ok hstore
  obtain ⟨field, hfield, hstore⟩ := exists_of_bind_ok hstore
  obtain ⟨⟨v, _⟩, -, hstore⟩ := exists_of_bind_ok hstore
  dsimp only at hstore
  split at hstore
  · cases hstore
    exact ⟨handle, field, hfield, rfl⟩
  · cases hstore

/-- The static side that an instruction needs is that of a realized type. -/
theorem execute_prepare
    (hsession : s.session.Addressed)
    (hexecute : s.execute heap f i = .ok (.prepare g owner rest, heap')) :
  rest.owner = owner ∧ ∃ t, s.session.realized? owner = some t
  := by
  have houtcome := execute_outcome hexecute
  cases houtcome with
  | callStatic _ hnames _ _ _ _ =>
      obtain ⟨hhandle, t, ht, -⟩ := hsession.methodAt hnames.2
      exact ⟨congrArg MethodRef.owner hhandle, t, ht⟩
  | construct _ _ htype _ _ _ _ =>
      have hrealized := Session.typeAt_ok htype
      obtain ⟨-, hid⟩ := Session.realized?_some hrealized
      exact ⟨rfl, _, hid ▸ hrealized⟩
  | loadStatic hop =>
      rw [execute, hop] at hexecute
      cases hload : s.loadStatic f i with
      | error error =>
          rw [hload] at hexecute
          cases hexecute
      | ok request =>
          rw [hload] at hexecute
          cases hexecute
          obtain ⟨handle, field, hfield, rfl⟩ := loadStatic_prepare hload
          obtain ⟨rfl, hrealized⟩ := hsession.fieldAt hfield
          exact ⟨rfl, hrealized⟩
  | storeStatic hop _ _ _ =>
      rw [execute, hop] at hexecute
      cases hstore : s.storeStatic f i with
      | error error =>
          rw [hstore] at hexecute
          cases hexecute
      | ok request =>
          rw [hstore] at hexecute
          cases hexecute
          obtain ⟨handle, field, hfield, rfl⟩ := storeStatic_prepare hstore
          obtain ⟨rfl, hrealized⟩ := hsession.fieldAt hfield
          exact ⟨rfl, hrealized⟩

/-- Only methods of objects are invoked at once. -/
theorem execute_invoke
    (hsession : s.session.Addressed) {m : RealizedMethod} {args : List Value}
    {typeArgs : List TypeRef} {resume : Resume}
    (houtcome : s.Outcome f i (.invoke g m args typeArgs resume)) (runs : Bool) (log : StaticLog) :
  m.isStatic = false ∧ resume.Backed runs log
  := by
  cases houtcome with
  | invoke _ _ hstatic _ _ _ htarget =>
      refine ⟨?_, resumeFor_backed _ runs log⟩
      obtain ⟨-, rfl⟩ | ⟨-, receiver, hdispatch⟩ := htarget
      · exact hstatic
      · exact hsession.dispatches receiver _ _ hstatic hdispatch

end Surroundings

namespace Execution

/-- The machine serves a request of the innermost frame. -/
theorem serve_accounted
    (hsession : session.Addressed) (hknown : ∀ t ∈ session.types, Known t)
    (h : e.Accounted Known runs log) (hframes : e.frames = f :: callers) {request : Request}
    (hafter : ∀ a, request.after = some a → f.SameCall a.frame)
    (hinvoke : ∀ g m args typeArgs resume, request = .invoke g m args typeArgs resume →
      m.isStatic = false ∧ resume.Backed runs log)
    (hprepare : ∀ g owner rest, request = .prepare g owner rest →
      rest.owner = owner ∧ ∃ t, session.realized? owner = some t) :
  (e.serve session callers request).Accounted Known runs
    (log ++ e.serving session callers request)
  := by
  have hwaiting := h.waiting
  rw [hframes] at hwaiting
  obtain ⟨hf, hcallers⟩ := List.forall_mem_cons.mp hwaiting
  have hwith : ∀ a, request.after = some a →
      (e.withFrame a.frame callers).Accounted Known runs log := by
    intro a ha
    rw [← (hafter a ha).resume] at hf
    exact accounted_withFrame_iff.mpr ⟨h.ledger, hf, hcallers⟩
  cases request with
  | proceed g =>
      rw [serving, List.append_nil]
      exact hwith _ rfl
  | finish v =>
      rw [serving, serve, hframes]
      exact finish_accounted h.ledger hf hcallers v
  | raise g exception =>
      rw [serving, List.append_nil]
      exact raise_accounted (hwith _ rfl) exception
  | invoke g m args typeArgs resume =>
      obtain ⟨hstatic, hresume⟩ := hinvoke _ _ _ _ _ rfl
      rw [serving, hstatic, if_neg Bool.false_ne_true, List.append_nil]
      exact enter_accounted (hwith _ rfl) hresume m args typeArgs
  | prepare g owner rest =>
      obtain ⟨rfl, hrealized⟩ := hprepare _ _ _ rfl
      exact prepare_accounted hsession hknown (hwith _ rfl) hrealized

theorem step_accounted
    (hsession : session.Addressed) (hknown : ∀ t ∈ session.types, Known t)
    (h : e.Accounted Known runs log) :
  (e.step session).Accounted Known runs (log ++ e.stepping session)
  := by
  rw [step, stepping]
  cases hframes : e.frames with
  | nil =>
      dsimp only
      rw [List.append_nil]
      exact h.ledger
  | cons f callers =>
      have htick := h.ledger.of_staticSide e.machine.tick_staticSide
      have hwaiting := h.waiting
      rw [hframes] at hwaiting
      dsimp only
      cases hinstruction : f.body.instructions[f.ip]? with
      | none =>
          dsimp only
          rw [List.append_nil]
          exact h.ledger
      | some i =>
          dsimp only
          cases hmachine : e.machine.tick with
          | mk answer machine =>
              rw [hmachine] at htick
              cases answer with
              | error error =>
                  dsimp only
                  rw [List.append_nil]
                  exact htick
              | ok _ =>
                  dsimp only
                  cases hexecute : Surroundings.execute ⟨session, machine.limits.maxStackDepth⟩
                      e.heap f i with
                  | error error =>
                      dsimp only
                      rw [List.append_nil]
                      exact htick
                  | ok answer =>
                      obtain ⟨request, heap⟩ := answer
                      have houtcome := Surroundings.execute_outcome hexecute
                      apply serve_accounted hsession hknown (f := f)
                      · exact ⟨htick, hwaiting⟩
                      · rfl
                      · exact fun a => houtcome.sameCall
                      · rintro g m args typeArgs resume rfl
                        exact Surroundings.execute_invoke hsession houtcome runs log
                      · rintro g owner rest rfl
                        exact Surroundings.execute_prepare hsession hexecute

/-- What a program does while it runs is accounted for. -/
theorem run_accounted
    (hsession : session.Addressed) (hknown : ∀ t ∈ session.types, Known t)
    (h : e.Accounted Known runs log) (fuel : Nat) :
  (e.run session fuel).Accounted Known runs (log ++ e.running session fuel)
  := by
  induction fuel generalizing e log with
  | zero =>
      rw [running, List.append_nil]
      exact h
  | succ fuel ih =>
      have hstep := step_accounted hsession hknown h
      rw [run, running]
      cases hnext : e.step session with
      | running e' =>
          rw [hnext] at hstep
          dsimp only
          rw [← List.append_assoc]
          exact ih hstep
      | finished machine heap result =>
          rw [hnext] at hstep
          dsimp only
          rw [List.append_nil]
          exact hstep

end Execution

/-- What happens in a run that the host starts is accounted for. -/
theorem Launch.status_accounted
    {l : Launch} (hsession : session.Addressed) (hknown : ∀ t ∈ session.types, Known t)
    (h : Ledger Known runs log l.host.machine) :
  (l.status session).Accounted Known runs (log ++ l.events session)
  := by
  have hnone : l.start.Accounted Known runs log := by
    refine ⟨h.of_staticSide rfl, ?_⟩
    rintro g ⟨⟩
  have hresume : Resume.dropResult.Backed runs log := by
    rintro rest ⟨⟩
  have hentered : l.entered.Accounted Known runs log :=
    Execution.enter_accounted hnone hresume l.method l.args l.typeArgs
  rw [status, events]
  cases hstart : l.entered with
  | running e =>
      rw [hstart] at hentered
      exact Execution.run_accounted hsession hknown hentered _
  | finished machine heap result =>
      rw [hstart] at hentered
      dsimp only
      rw [List.append_nil]
      exact hentered

end

end ManagedCode
