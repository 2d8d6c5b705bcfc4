import ManagedCode.Proofs.Machine.FieldAccess
import ManagedCode.Proofs.Machine.StaticHistory

/-!
# Logs and frames

The log of the static sides of types tells what the steps of a program do.  An initializer is
started in the log when a step enters its frame, while the instruction waits
(`Execution.enters_of_starts`), and every step in which an instruction goes on with a type is a use
in the log (`Execution.Executes.performs_at_once`, `Execution.Executes.performs_after`).

Nor does a program do more than its log tells.  A frame that has been entered in a run is that of
an initializer that the log starts, of a constructor whose object the log constructs, of a static
method that the log calls, or of a method of objects (`Execution.run_explained`).
-/

namespace ManagedCode

open StaticLog

/-! ## Initializers that are started -/

/-- A log starts an initializer when the machine asks for its run. -/
theorem Machine.mem_preparing_starts_iff
    {machine : Machine} {session : Session} {id : TypeId} {t : RealizedType} {m : RealizedMethod} :
  .starts t m ∈ machine.preparing session id
    ↔ session.realized? id = some t ∧ (machine.prepare session id).1 = .ok (some m)
  := by
  rw [preparing]
  cases hrealized : session.realized? id with
  | none =>
      constructor
      · rintro ⟨⟩
      · rintro ⟨⟨⟩, -⟩
  | some u =>
      have hcreates : StaticEvent.starts t m
          ∉ if machine.initialized.contains id then [] else [.creates u] := by
        split
        · rintro ⟨⟩
        · intro hmem
          cases List.mem_singleton.mp hmem
      dsimp only
      rw [List.mem_append, or_iff_right hcreates, Option.some.injEq]
      cases (machine.prepare session id).1 with
      | error error =>
          constructor
          · rintro ⟨⟩
          · rintro ⟨-, ⟨⟩⟩
      | ok initializer =>
          cases initializer with
          | none =>
              constructor
              · rintro ⟨⟩
              · rintro ⟨-, ⟨⟩⟩
          | some m' =>
              rw [List.mem_singleton, StaticEvent.starts.injEq, Except.ok.injEq, Option.some.injEq,
                eq_comm (a := t), eq_comm (a := m)]

/-- What the host has started in the log is what it runs. -/
theorem Host.exec_initializeType_of_starts
    {session : Session} {id : TypeId} {t : RealizedType} {m : RealizedMethod} {host : HostState}
    (hstarts : .starts t m ∈ host.machine.preparing session id) :
  (initializeType session id).exec host
    = (discard (execute session m [] []) : Host Unit).exec
      { host with machine := (host.machine.prepare session id).2 }
  := by
  obtain ⟨-, hanswer⟩ := Machine.mem_preparing_starts_iff.mp hstarts
  rw [exec_initializeType, hanswer]

namespace Execution

/-- The next step enters the initializer of a type, while the rest of the instruction waits for
it. -/
def Initializes (session : Session) (e : Execution) (t : RealizedType) (m : RealizedMethod) :
    Prop :=
  ∃ f g callers rest machine heap, e.frames = f :: callers ∧ f.SameCall g ∧ rest.owner = t.id
    ∧ e.step session
      = enter { machine := machine, heap := heap, frames := g :: callers } m [] [] (.perform rest)

namespace Executes

variable {session : Session} {e : Execution} {i : Instruction} {f g : Frame} {callers : List Frame}
  {machine : Machine} {heap : Heap} {rest : Deferred}

/-- What happens in a step is what happens as the request of the instruction is served. -/
theorem stepping_request
    {request : Request} (h : e.Executes i f callers machine)
    (hexecute : Surroundings.execute ⟨session, machine.limits.maxStackDepth⟩ e.heap f i
      = .ok (request, heap)) :
  e.stepping session
    = serving session { machine := machine, heap := heap, frames := f :: callers } callers request
  := by
  rw [stepping, h.frames]
  dsimp only
  rw [h.instruction]
  dsimp only
  rw [h.budget]
  dsimp only
  rw [hexecute]

/-- An instruction that needs no initializer to run goes on at once, and the log has the use. -/
theorem performs_at_once
    (h : e.Executes i f callers machine)
    (hexecute : Surroundings.execute ⟨session, machine.limits.maxStackDepth⟩ e.heap f i
      = .ok (.prepare g rest.owner rest, heap))
    (hanswer : (machine.prepare session rest.owner).1 = .ok none) :
  e.step session
      = perform
        { machine := (machine.prepare session rest.owner).2, heap := heap, frames := f :: callers }
        g callers rest
    ∧ e.stepping session = machine.preparing session rest.owner ++ [rest.use]
  := by
  rw [h.step_request hexecute, h.stepping_request hexecute, serve, serving, preparing, hanswer]
  refine ⟨?_, rfl⟩
  rw [prepare]
  cases hprepare : machine.prepare session rest.owner with
  | mk answer machine' =>
      rw [hprepare] at hanswer
      obtain rfl : answer = .ok none := hanswer
      rfl

/-- An instruction that has waited for an initializer goes on when that returns, and the log has the
use. -/
theorem performs_after
    {caller : Frame} {v : Value} (h : e.Executes i f (caller :: callers) machine)
    (hexecute : Surroundings.execute ⟨session, machine.limits.maxStackDepth⟩ e.heap f i
      = .ok (.finish v, heap))
    (hresume : f.resume = .perform rest) :
  e.step session
      = perform { machine := machine, heap := heap, frames := f :: caller :: callers }
        caller callers rest
    ∧ e.stepping session = [rest.use]
  := by
  rw [h.step_request hexecute, h.stepping_request hexecute, serve, serving]
  dsimp only
  rw [finish, finishing, hresume]
  exact ⟨rfl, rfl⟩

end Executes

/-- Something happens in a step only if an instruction is executed. -/
theorem exists_executes
    {session : Session} {e : Execution} {event : StaticEvent} (h : event ∈ e.stepping session) :
  ∃ f callers i machine request heap, e.Executes i f callers machine
    ∧ Surroundings.execute ⟨session, machine.limits.maxStackDepth⟩ e.heap f i = .ok (request, heap)
  := by
  rw [stepping] at h
  split at h
  · cases h
  · next f callers hframes =>
    split at h
    · cases h
    · next i hinstruction =>
      split at h
      · cases h
      · next machine hbudget =>
        split at h
        · cases h
        · next request heap hexecute =>
          exact ⟨f, callers, i, machine, request, heap, ⟨hframes, hinstruction, hbudget⟩, hexecute⟩

/-- An initializer is started in the log when its frame is entered. -/
theorem enters_of_starts
    {session : Session} (hsession : session.Addressed) {e : Execution} {t : RealizedType}
    {m : RealizedMethod} (hstarts : .starts t m ∈ e.stepping session) :
  e.Initializes session t m
  := by
  obtain ⟨f, callers, i, machine, request, heap, h, hexecute⟩ := exists_executes hstarts
  rw [h.stepping_request hexecute] at hstarts
  cases request with
  | proceed g | raise g exception => cases hstarts
  | finish v =>
      rw [serving] at hstarts
      dsimp only at hstarts
      cases callers with
      | nil => cases hstarts
      | cons caller callers =>
          rw [finishing] at hstarts
          split at hstarts
          · next rest hresume =>
            have huse := List.mem_singleton.mp hstarts
            cases rest <;> cases huse
          · cases hstarts
  | invoke g m' args typeArgs resume =>
      rw [serving] at hstarts
      split at hstarts
      · cases List.mem_singleton.mp hstarts
      · cases hstarts
  | prepare g owner rest =>
      obtain ⟨rfl, -⟩ := Surroundings.execute_prepare hsession hexecute
      have hsame := (Surroundings.execute_outcome hexecute).sameCall
        (a := ⟨g, .waiting (.perform rest)⟩) rfl
      rw [serving, preparing, List.mem_append] at hstarts
      obtain hstarts | huse := hstarts
      · obtain ⟨ht, hanswer⟩ := Machine.mem_preparing_starts_iff.mp hstarts
        obtain ⟨-, hid⟩ := Session.realized?_some ht
        refine ⟨f, g, callers, rest, (machine.prepare session rest.owner).2, heap, h.frames, hsame,
          hid.symm, ?_⟩
        rw [h.step_request hexecute, serve, prepare]
        cases hprepare : machine.prepare session rest.owner with
        | mk answer machine' =>
            rw [hprepare] at hanswer
            obtain rfl : answer = .ok (some m) := hanswer
            rfl
      · split at huse
        · have huse := List.mem_singleton.mp huse
          cases rest <;> cases huse
        · cases huse

/-- What happens in a run happens in one of its steps. -/
theorem mem_running_iff {session : Session} {e : Execution} {event : StaticEvent} {n : Nat} :
  event ∈ e.running session n
    ↔ ∃ k e', k < n ∧ e.run session k = .running e' ∧ event ∈ e'.stepping session
  := by
  induction n generalizing e with
  | zero =>
      constructor
      · rintro ⟨⟩
      · rintro ⟨k, e', hk, -⟩
        cases hk
  | succ n ih =>
      rw [running, List.mem_append]
      constructor
      · rintro (hfirst | hlater)
        · exact ⟨0, e, Nat.succ_pos n, rfl, hfirst⟩
        · cases hstep : e.step session with
          | finished machine heap result =>
              rw [hstep] at hlater
              cases hlater
          | running e₁ =>
              rw [hstep] at hlater
              obtain ⟨k, e', hk, hrun, hevent⟩ := ih.mp hlater
              refine ⟨k + 1, e', Nat.succ_lt_succ hk, ?_, hevent⟩
              rw [run, hstep]
              exact hrun
      · rintro ⟨k, e', hk, hrun, hevent⟩
        cases k with
        | zero =>
            cases hrun
            exact .inl hevent
        | succ k =>
            right
            rw [run] at hrun
            cases hstep : e.step session with
            | finished machine heap result =>
                rw [hstep] at hrun
                cases hrun
            | running e₁ =>
                rw [hstep] at hrun
                exact ih.mpr ⟨k, e', Nat.lt_of_succ_lt_succ hk, hrun, hevent⟩

/-- An initializer that the log of a run starts has been entered in one of the steps. -/
theorem initializes_of_running
    {session : Session} (hsession : session.Addressed) {e : Execution} {t : RealizedType}
    {m : RealizedMethod} {n : Nat} (hstarts : .starts t m ∈ e.running session n) :
  ∃ k e', k < n ∧ e.run session k = .running e' ∧ e'.Initializes session t m
  := by
  obtain ⟨k, e', hk, hrun, hevent⟩ := mem_running_iff.mp hstarts
  exact ⟨k, e', hk, hrun, enters_of_starts hsession hevent⟩

end Execution

/-! ## Frames that are entered -/

/-- A log tells why a method is entered, given what its caller does with the result.  The caller of
an initializer waits to go on with the type, and that of a constructor gets an object of the
type. -/
def StaticLog.Enters (log : StaticLog) (m : RealizedMethod) : Resume → Prop
  | .perform rest => ∃ t, .starts t m ∈ log ∧ t.id = rest.owner
  | .pushObject object => ∃ t r, .constructs t ∈ log ∧ object = .object r ∧ r.type = t.id
  | .pushResult | .dropResult => m.isStatic = true → .calls m ∈ log

/-- A longer log tells as much. -/
theorem StaticLog.Enters.mono
    {log log' : StaticLog} {m : RealizedMethod} {resume : Resume} (h : log.Enters m resume)
    (hlog : ∀ event ∈ log, event ∈ log') :
  log'.Enters m resume
  := by
  cases resume with
  | pushResult | dropResult => exact fun hstatic => hlog _ (h hstatic)
  | pushObject object =>
      obtain ⟨t, r, hconstructs, hobject⟩ := h
      exact ⟨t, r, hlog _ hconstructs, hobject⟩
  | perform rest =>
      obtain ⟨t, hstarts, hid⟩ := h
      exact ⟨t, hlog _ hstarts, hid⟩

/-- The caller of a method gets its result, if there is one. -/
theorem StaticLog.enters_resumeFor_iff {log : StaticLog} {m : RealizedMethod} :
  log.Enters m (Surroundings.resumeFor m) ↔ (m.isStatic = true → .calls m ∈ log)
  := by
  rw [Surroundings.resumeFor]
  split <;> exact Iff.rfl

/-- The methods that are invoked at once are methods of objects. -/
theorem Surroundings.execute_invoke_enters
    {s : Surroundings} (hsession : s.session.Addressed) {f g : Frame} {i : Instruction}
    {m : RealizedMethod} {args : List Value} {typeArgs : List TypeRef} {resume : Resume}
    (houtcome : s.Outcome f i (.invoke g m args typeArgs resume)) (log : StaticLog) :
  log.Enters m resume
  := by
  have hstatic := (execute_invoke hsession houtcome true []).1
  cases houtcome with
  | invoke _ _ _ _ _ _ _ =>
      rw [StaticLog.enters_resumeFor_iff, hstatic]
      rintro ⟨⟩

/-- A frame is one of the given frames, further on, or a log tells why it has been entered. -/
def Frame.Explained (frames : List Frame) (log : StaticLog) (g : Frame) : Prop :=
  (∃ f ∈ frames, f.SameCall g) ∨ log.Enters g.method g.resume

/-- If a program goes on, all its frames are explained. -/
def Status.Explained (frames : List Frame) (log : StaticLog) : Status → Prop
  | .running e => ∀ g ∈ e.frames, g.Explained frames log
  | .finished _ _ _ => True

namespace Frame.Explained

variable {frames : List Frame} {log log' : StaticLog} {f g : Frame}

/-- A frame that is given is explained. -/
theorem of_mem (hf : f ∈ frames) : f.Explained frames log :=
  .inl ⟨f, hf, .refl f⟩

theorem mono (h : f.Explained frames log) (hlog : ∀ event ∈ log, event ∈ log') :
  f.Explained frames log'
  := h.imp_right fun henters => henters.mono hlog

theorem sameCall (h : f.Explained frames log) (hsame : f.SameCall g) : g.Explained frames log := by
  obtain ⟨f₀, hf₀, hfrom⟩ | henters := h
  · exact .inl ⟨f₀, hf₀, hfrom.trans hsame⟩
  · right
    rw [hsame.method, hsame.resume]
    exact henters

end Frame.Explained

namespace Execution

variable {session : Session} {e e' : Execution} {f : Frame} {callers frames : List Frame}
  {log : StaticLog}

/-- The frame of a method is explained if the log tells why the method is entered. -/
theorem enter_explained
    {m : RealizedMethod} {resume : Resume} (hframes : ∀ g ∈ e.frames, g.Explained frames log)
    (henters : log.Enters m resume) (args : List Value) (typeArgs : List TypeRef) :
  (e.enter m args typeArgs resume).Explained frames log
  := by
  rw [enter]
  split
  · trivial
  · split
    · exact List.forall_mem_cons.mpr ⟨.inr henters, hframes⟩
    · trivial

/-- A frame that takes a value is further on in its activation. -/
theorem complete_explained (hframes : ∀ g ∈ f :: callers, g.Explained frames log) (v : Value) :
  (e.complete f callers v).Explained frames log
  := by
  obtain ⟨hf, hcallers⟩ := List.forall_mem_cons.mp hframes
  rw [complete]
  split
  · next g hpush =>
    have hsame : f.SameCall g.advance :=
      (Frame.push_ok hpush).1.toSameCall.trans ⟨rfl, rfl, rfl, rfl⟩
    exact List.forall_mem_cons.mpr ⟨hf.sameCall hsame, hcallers⟩
  · trivial

/-- An instruction that goes on enters what its use tells. -/
theorem perform_explained
    (hframes : ∀ g ∈ f :: callers, g.Explained frames log) {rest : Deferred}
    (huse : rest.use ∈ log) :
  (e.perform f callers rest).Explained frames log
  := by
  cases rest with
  | load owner slot =>
      rw [perform]
      split
      · exact complete_explained hframes _
      · trivial
  | store owner slot v =>
      obtain ⟨hf, hcallers⟩ := List.forall_mem_cons.mp hframes
      rw [perform]
      split
      · have hsame : f.SameCall f.advance := ⟨rfl, rfl, rfl, rfl⟩
        exact List.forall_mem_cons.mpr ⟨hf.sameCall hsame, hcallers⟩
      · trivial
  | call m args typeArgs =>
      rw [perform]
      exact enter_explained hframes (enters_resumeFor_iff.mpr fun _ => huse) args typeArgs
  | construct t m args typeArgs =>
      rw [perform]
      have henters : ∀ r : ObjectRef, r.type = t.id → log.Enters m (.pushObject (.object r)) :=
        fun r hr => ⟨t, r, huse, rfl, hr⟩
      exact enter_explained hframes (henters _ rfl) _ typeArgs

/-- Setting up a type enters its initializer, if that has to run, and otherwise what the use tells.
-/
theorem prepare_explained
    (hframes : ∀ g ∈ f :: callers, g.Explained frames log) {rest : Deferred}
    (hlog : ∀ event ∈ e.preparing session rest.owner rest, event ∈ log)
    (hrealized : ∃ t, session.realized? rest.owner = some t) :
  (e.prepare session f callers rest.owner rest).Explained frames log
  := by
  rw [preparing] at hlog
  rw [prepare]
  cases hprepare : e.machine.prepare session rest.owner with
  | mk answer machine =>
      rw [hprepare] at hlog
      cases answer with
      | error error => trivial
      | ok initializer =>
          cases initializer with
          | none =>
              have huse : rest.use ∈ log :=
                hlog _ (List.mem_append_right _ (List.mem_singleton.mpr rfl))
              exact perform_explained hframes huse
          | some m =>
              obtain ⟨t, ht⟩ := hrealized
              have hstarts : .starts t m ∈ e.machine.preparing session rest.owner := by
                rw [Machine.mem_preparing_starts_iff, hprepare]
                exact ⟨ht, rfl⟩
              have henters : log.Enters m (.perform rest) :=
                ⟨t, hlog _ (List.mem_append_left _ hstarts), (Session.realized?_some ht).2⟩
              exact enter_explained hframes henters [] []

/-- When a frame returns, its caller goes on. -/
theorem finish_explained
    (hcallers : ∀ g ∈ callers, g.Explained frames log)
    (hlog : ∀ event ∈ finishing f callers, event ∈ log) (v : Value) :
  (e.finish f callers v).Explained frames log
  := by
  cases callers with
  | nil => trivial
  | cons caller callers =>
      rw [finishing] at hlog
      rw [finish]
      cases hresume : f.resume with
      | pushResult => exact complete_explained hcallers v
      | dropResult =>
          obtain ⟨hcaller, hrest⟩ := List.forall_mem_cons.mp hcallers
          have hsame : caller.SameCall caller.advance := ⟨rfl, rfl, rfl, rfl⟩
          exact List.forall_mem_cons.mpr ⟨hcaller.sameCall hsame, hrest⟩
      | pushObject object => exact complete_explained hcallers object
      | perform rest =>
          rw [hresume] at hlog
          exact perform_explained hcallers (hlog _ (List.mem_singleton.mpr rfl))

/-- Unwinding enters no frame. -/
theorem unwind_explained
    {limit : Nat} {exception : Value} {waiting left : List Frame}
    (hunwind : Frame.unwind session limit exception waiting = .ok left)
    (hwaiting : ∀ g ∈ waiting, g.Explained frames log) :
  ∀ g ∈ left, g.Explained frames log
  := by
  induction waiting with
  | nil =>
      cases hunwind
      exact hwaiting
  | cons f callers ih =>
      obtain ⟨hf, hcallers⟩ := List.forall_mem_cons.mp hwaiting
      rw [Frame.unwind] at hunwind
      cases hraise : f.raise session limit exception with
      | error error =>
          rw [hraise] at hunwind
          cases hunwind
      | ok answer =>
          rw [hraise] at hunwind
          cases answer with
          | none => exact ih hunwind hcallers
          | some g =>
              cases hunwind
              exact List.forall_mem_cons.mpr ⟨hf.sameCall (Frame.raise_sameCall hraise), hcallers⟩

/-- A request is served with what happens as it is served. -/
theorem serve_explained
    (hframes : e.frames = f :: callers) {request : Request}
    (hafter : ∀ a, request.after = some a → f.SameCall a.frame)
    (hinvoke : ∀ g m args typeArgs resume, request = .invoke g m args typeArgs resume →
      ∀ log : StaticLog, log.Enters m resume)
    (hprepare : ∀ g owner rest, request = .prepare g owner rest →
      rest.owner = owner ∧ ∃ t, session.realized? owner = some t) :
  (e.serve session callers request).Explained (f :: callers) (e.serving session callers request)
  := by
  have hcallers : ∀ {log}, ∀ g ∈ callers, g.Explained (f :: callers) log :=
    fun g hg => .of_mem (List.mem_cons_of_mem _ hg)
  have hwith : ∀ {log} a, request.after = some a →
      ∀ g ∈ a.frame :: callers, g.Explained (f :: callers) log := by
    intro log a ha
    have hf : f.Explained (f :: callers) log := .of_mem List.mem_cons_self
    exact List.forall_mem_cons.mpr ⟨hf.sameCall (hafter a ha), hcallers⟩
  cases request with
  | proceed g => exact hwith _ rfl
  | finish v =>
      rw [serve, serving, hframes]
      exact finish_explained hcallers (fun _ => id) v
  | raise g exception =>
      rw [serve, raise]
      split
      · trivial
      · trivial
      · next hunwind => exact unwind_explained hunwind (hwith _ rfl)
  | invoke g m args typeArgs resume =>
      rw [serve]
      exact enter_explained (e := e.withFrame g callers) (hwith _ rfl)
        (hinvoke _ _ _ _ _ rfl _) args typeArgs
  | prepare g owner rest =>
      obtain ⟨rfl, hrealized⟩ := hprepare _ _ _ rfl
      exact prepare_explained (hwith _ rfl) (fun _ => id) hrealized

/-- Every frame that a step enters is explained by what happens in the step. -/
theorem step_explained (hsession : session.Addressed) (hstep : e.step session = .running e') :
  ∀ g ∈ e'.frames, g.Explained e.frames (e.stepping session)
  := by
  suffices h : (e.step session).Explained e.frames (e.stepping session) by
    rw [hstep] at h
    exact h
  rw [step, stepping]
  cases hframes : e.frames with
  | nil => trivial
  | cons f callers =>
      dsimp only
      cases hinstruction : f.body.instructions[f.ip]? with
      | none => trivial
      | some i =>
          dsimp only
          cases hmachine : e.machine.tick with
          | mk answer machine =>
              cases answer with
              | error error => trivial
              | ok _ =>
                  dsimp only
                  cases hexecute : Surroundings.execute ⟨session, machine.limits.maxStackDepth⟩
                      e.heap f i with
                  | error error => trivial
                  | ok answer =>
                      obtain ⟨request, heap⟩ := answer
                      have houtcome := Surroundings.execute_outcome hexecute
                      apply serve_explained rfl
                      · exact fun a => houtcome.sameCall
                      · rintro g m args typeArgs resume rfl
                        exact Surroundings.execute_invoke_enters hsession houtcome
                      · rintro g owner rest rfl
                        exact Surroundings.execute_prepare hsession hexecute

/-- Every frame that a run enters is explained by what happens in the run. -/
theorem run_explained
    (hsession : session.Addressed) {n : Nat} (hrun : e.run session n = .running e') :
  ∀ g ∈ e'.frames, g.Explained e.frames (e.running session n)
  := by
  induction n generalizing e with
  | zero =>
      cases hrun
      exact fun g hg => .of_mem hg
  | succ n ih =>
      rw [run] at hrun
      rw [running]
      cases hstep : e.step session with
      | finished machine heap result =>
          rw [hstep] at hrun
          cases hrun
      | running e₁ =>
          rw [hstep] at hrun
          intro g hg
          obtain ⟨f, hf, hsame⟩ | henters := ih hrun g hg
          · apply ((step_explained hsession hstep f hf).sameCall hsame).mono
            exact fun _ => List.mem_append_left _
          · exact .inr (henters.mono fun _ => List.mem_append_right _)

end Execution

end ManagedCode
