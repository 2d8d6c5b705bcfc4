import ManagedCode.Proofs.Machine.Budget
import ManagedCode.Proofs.Machine.Limits

/-!
# Call depth

The machine keeps the frames of a program in a list, and a method that is entered is one frame
more.  `Evaluates` runs the same programs by recursion: the call of a method counts one more
active method, runs the method, and counts one less, however the method has ended.  An exception
that a method does not handle is raised again in its caller; any other fault passes on to the
host.

The two agree on the programs that end (`Task.evaluates_of_run`, `Evaluates.run_status`): the
call depth is the number of frames.  Every evaluation leaves the call depth as it was
(`Evaluates.depth_eq`), and so does every call of the host.
-/

namespace ManagedCode

/-- No handler of a program sees the fault. -/
def Fault.Fatal : Fault → Prop
  | .exception _ => False
  | _ => True

theorem Fault.Ordinary.fatal {error : Fault} (h : error.Ordinary) : error.Fatal := by
  cases error with
  | exception _ => exact h
  | _ => trivial

/-! ## Evaluations -/

/-- A machine with the heap that it works on and the number of active methods. -/
structure Nested extends HostState where
  depth : Nat

namespace Nested

/-- The count of instructions starts anew when no method is active. -/
def counted (s : Nested) : Nested :=
  if s.depth = 0 then { s with machine := { s.machine with steps := 0 } } else s

/-- One call deeper. -/
def deeper (s : Nested) : Nested :=
  { s with depth := s.depth + 1 }

/-- One call less deep. -/
def shallower (s : Nested) : Nested :=
  { s with depth := s.depth - 1 }

end Nested

/-- What there is to do. -/
inductive Task where
  | call (m : RealizedMethod) (args : List Value) (typeArgs : List TypeRef) (how : Resume)
  | frame (f : Frame)
  | raise (f : Frame) (exception : Value)
  | complete (f : Frame) (v : Value)
  | perform (f : Frame) (rest : Deferred)
  | prepare (f : Frame) (owner : TypeId) (rest : Deferred)
  | resume (f : Frame) (how : Resume) (result : Except Fault Value)

/-- What a task comes to: an answer to the caller of the method, another task, a method that is
active until its frame has ended, or a call whose result the frame waits for. -/
inductive Progress where
  | answer (result : Except Fault Value) (s : Nested)
  | go (task : Task) (s : Nested)
  | enter (f : Frame) (s : Nested)
  | invoke (f : Frame) (m : RealizedMethod) (args : List Value) (typeArgs : List TypeRef)
      (how : Resume) (s : Nested)

/-- What the recursion does about a request of a frame. -/
def Request.progress (s : Nested) : Request → Progress
  | proceed f => .go (.frame f) s
  | finish v => .answer (.ok v) s
  | raise f exception => .go (.raise f exception) s
  | invoke f m args typeArgs how => .invoke f m args typeArgs how s
  | prepare f owner rest => .go (.prepare f owner rest) s

/-- What the recursion does next: it answers, goes on, or calls itself. -/
def Task.next (session : Session) (s : Nested) : Task → Progress
  | call m args typeArgs how =>
    match m.callableBody typeArgs with
    | .error error => .answer (.error error) s
    | .ok body =>
      if s.depth < s.machine.limits.maxCallDepth then
        .enter (.enter m body args typeArgs how) s.counted
      else .answer (.error .stackOverflow) s.counted
  | frame f =>
    match f.body.instructions[f.ip]? with
    | none =>
      .answer (.error (.runtimeError ("control fell off the end of '" ++ f.method.name ++ "'"))) s
    | some i =>
      match s.machine.tick with
      | (.error error, machine) => .answer (.error error) { s with machine := machine }
      | (.ok (), machine) =>
        match Surroundings.execute ⟨session, machine.limits.maxStackDepth⟩ s.heap f i with
        | .error error => .answer (.error error) { s with machine := machine }
        | .ok (request, heap) => request.progress { s with machine := machine, heap := heap }
  | raise f exception =>
    match f.raise session s.machine.limits.maxStackDepth exception with
    | .error error => .answer (.error error) s
    | .ok none => .answer (.error (.exception exception)) s
    | .ok (some f) => .go (.frame f) s
  | complete f v =>
    match f.push s.machine.limits.maxStackDepth v with
    | .error error => .answer (.error error) s
    | .ok f => .go (.frame f.advance) s
  | perform f (.load owner slot) =>
    match s.machine.static owner slot with
    | .error error => .answer (.error error) s
    | .ok v => .go (.complete f v) s
  | perform f (.store owner slot v) =>
    match s.machine.setStatic owner slot v with
    | .error error => .answer (.error error) s
    | .ok machine => .go (.frame f.advance) { s with machine := machine }
  | perform f (.call m args typeArgs) => .invoke f m args typeArgs (Surroundings.resumeFor m) s
  | perform f (.construct t m args typeArgs) =>
    let (r, heap) := s.heap.allocObject t.id (t.instanceDefaults.map Value.toStack)
    .invoke f m (.object r :: args) typeArgs (.pushObject (.object r)) { s with heap := heap }
  | prepare f owner rest =>
    match s.machine.prepare session owner with
    | (.error error, machine) => .answer (.error error) { s with machine := machine }
    | (.ok none, machine) => .go (.perform f rest) { s with machine := machine }
    | (.ok (some m), machine) => .invoke f m [] [] (.perform rest) { s with machine := machine }
  | resume f how (.ok v) =>
    match how with
    | .pushResult => .go (.complete f v) s
    | .dropResult => .go (.frame f.advance) s
    | .pushObject object => .go (.complete f object) s
    | .perform rest => .go (.perform f rest) s
  | resume f _ (.error error) =>
    match error with
    | .exception exception => .go (.raise f exception) s
    | error => .answer (.error error) s

/-- A task ends with an answer to the caller of the method. -/
inductive Evaluates (session : Session) : Task → Nested → Except Fault Value → Nested → Prop
  | answer {task : Task} {s s' : Nested} {answer : Except Fault Value}
      (hnext : task.next session s = .answer answer s') :
      Evaluates session task s answer s'
  | go {task task' : Task} {s s₁ s' : Nested} {answer : Except Fault Value}
      (hnext : task.next session s = .go task' s₁)
      (hrest : Evaluates session task' s₁ answer s') :
      Evaluates session task s answer s'
  | enter {task : Task} {s s₁ s' : Nested} {f : Frame} {answer : Except Fault Value}
      (hnext : task.next session s = .enter f s₁)
      (hframe : Evaluates session (.frame f) s₁.deeper answer s') :
      Evaluates session task s answer s'.shallower
  | invoke {task : Task} {s s₁ s₂ s' : Nested} {f : Frame} {m : RealizedMethod}
      {args : List Value} {typeArgs : List TypeRef} {how : Resume}
      {result answer : Except Fault Value}
      (hnext : task.next session s = .invoke f m args typeArgs how s₁)
      (hcall : Evaluates session (.call m args typeArgs how) s₁ result s₂)
      (hresume : Evaluates session (.resume f how result) s₂ answer s') :
      Evaluates session task s answer s'

/-! ## What a task comes to -/

namespace Task

/-- How the caller of the method goes on. -/
def how : Task → Resume
  | call _ _ _ how => how
  | frame f | raise f _ | complete f _ | perform f _ | prepare f _ _ | resume f _ _ => f.resume

/-- How many methods are active above the given callers. -/
def active (callers : List Frame) : Task → Nat
  | call _ _ _ _ => callers.length
  | _ => callers.length + 1

/-- How many instructions a task takes at once. -/
def ticks : Task → Nat
  | frame _ => 1
  | _ => 0

/-- How far a task is from the next instruction. -/
def rank : Task → Nat
  | frame _ => 0
  | call _ _ _ _ | raise _ _ | complete _ _ => 1
  | perform _ _ => 3
  | prepare _ _ _ => 5
  | resume _ (.perform _) _ => 4
  | resume _ _ _ => 2

end Task

/-- A task goes on in the same method, with the same number of active methods, and nearer to the
next instruction. -/
inductive Progress.Continues (s : Nested) (task : Task) : Progress → Prop
  | answer {s' : Nested} {result : Except Fault Value} (hdepth : s'.depth = s.depth) :
      Continues s task (.answer result s')
  | go {task' : Task} {s' : Nested} (hdepth : s'.depth = s.depth) (hhow : task'.how = task.how)
      (hactive : ∀ callers, task'.active callers = task.active callers)
      (hrank : task'.rank < task.rank + 6 * task.ticks) :
      Continues s task (.go task' s')
  | enter {f : Frame} {s' : Nested} (hdepth : s'.depth = s.depth) (hhow : f.resume = task.how)
      (hactive : ∀ callers, task.active callers = callers.length) (hrank : 0 < task.rank) :
      Continues s task (.enter f s')
  | invoke {f : Frame} {m : RealizedMethod} {args : List Value} {typeArgs : List TypeRef}
      {how : Resume} {s' : Nested} (hdepth : s'.depth = s.depth) (hhow : f.resume = task.how)
      (hactive : ∀ callers, task.active callers = callers.length + 1)
      (hcall : 1 < task.rank + 6 * task.ticks)
      (hresume : ∀ result, (Task.resume f how result).rank < task.rank + 6 * task.ticks) :
      Continues s task (.invoke f m args typeArgs how s')

theorem Nested.counted_depth (s : Nested) : s.counted.depth = s.depth := by
  rw [counted]
  split <;> rfl

theorem Task.rank_lt (task : Task) : task.rank < 6 := by
  cases task with
  | resume _ how _ => cases how <;> simp [rank]
  | _ => simp [rank]

/-- The rest of an instruction of a frame. -/
theorem Request.continues
    {s s' : Nested} {f : Frame} {request : Request} (hdepth : s'.depth = s.depth)
    (hafter : ∀ a ∈ request.after, a.frame.resume = f.resume) :
  (request.progress s').Continues s (.frame f)
  := by
  cases request with
  | finish v => exact .answer hdepth
  | proceed g | raise g _ | prepare g _ _ =>
      exact .go hdepth (hafter _ rfl) (fun _ => rfl) (Task.rank_lt _)
  | invoke g _ _ _ _ =>
      exact .invoke hdepth (hafter _ rfl) (fun _ => rfl) (Nat.one_lt_succ_succ 4) fun _ =>
        Task.rank_lt _

/-- What a task does next keeps to the depth at which it runs. -/
theorem Task.next_continues (session : Session) (s : Nested) (task : Task) :
  (task.next session s).Continues s task
  := by
  cases task with
  | call m args typeArgs how =>
      rw [next]
      split
      · exact .answer rfl
      · split
        · exact .enter s.counted_depth rfl (fun _ => rfl) Nat.one_pos
        · exact .answer s.counted_depth
  | frame f =>
      rw [next]
      split
      · exact .answer rfl
      · split
        · exact .answer rfl
        · split
          · exact .answer rfl
          · next request heap hexecute =>
            refine Request.continues (by rfl) fun a ha => ?_
            exact ((Surroundings.execute_outcome hexecute).sameCall ha).resume
  | raise f exception =>
      rw [next]
      split
      · exact .answer rfl
      · exact .answer rfl
      · next g hraise =>
        exact .go rfl (Frame.raise_sameCall hraise).resume (fun _ => rfl) Nat.one_pos
  | complete f v =>
      rw [next]
      split
      · exact .answer rfl
      · next g hpush =>
        exact .go rfl (Frame.push_ok hpush).1.resume (fun _ => rfl) Nat.one_pos
  | perform f rest =>
      cases rest with
      | load owner slot | store owner slot v =>
          rw [next]
          split
          · exact .answer rfl
          · exact .go rfl rfl (fun _ => rfl) (by simp [rank, ticks])
      | call m args typeArgs =>
          refine .invoke rfl rfl (fun _ => rfl) (by simp [rank, ticks]) fun _ => ?_
          rw [Surroundings.resumeFor]
          split <;> simp [rank, ticks]
      | construct t m args typeArgs =>
          exact .invoke rfl rfl (fun _ => rfl) (by simp [rank, ticks]) fun _ => Nat.lt_succ_self 2
  | prepare f owner rest =>
      rw [next]
      split
      · exact .answer rfl
      · exact .go rfl rfl (fun _ => rfl) (by simp [rank, ticks])
      · exact .invoke rfl rfl (fun _ => rfl) (by simp [rank, ticks]) fun _ => Nat.lt_succ_self 4
  | resume f how result =>
      cases result with
      | ok v => cases how <;> exact .go rfl rfl (fun _ => rfl) (by simp [rank, ticks])
      | error error =>
          cases error with
          | exception _ =>
              refine .go rfl rfl (fun _ => rfl) ?_
              cases how <;> simp [rank, ticks]
          | _ => exact .answer rfl

/-- However an evaluation ends, it leaves the call depth as it was. -/
theorem Evaluates.depth_eq
    {session : Session} {task : Task} {s s' : Nested} {answer : Except Fault Value}
    (heval : Evaluates session task s answer s') :
  s'.depth = s.depth
  := by
  induction heval with
  | @answer task s _ _ hnext =>
      obtain ⟨hdepth⟩ : Progress.Continues s task (.answer _ _) := hnext ▸ task.next_continues _ _
      exact hdepth
  | @go task _ s _ _ _ hnext _ ih =>
      obtain - | ⟨hdepth, -⟩ : Progress.Continues s task (.go _ _) := hnext ▸ task.next_continues _ _
      exact ih.trans hdepth
  | @enter task s s₁ s' _ _ hnext _ ih =>
      obtain - | - | ⟨hdepth, -⟩ : Progress.Continues s task (.enter _ _) :=
        hnext ▸ task.next_continues _ _
      calc s'.depth - 1
        _ = s₁.depth + 1 - 1 := congrArg (· - 1) ih
        _ = s.depth := hdepth
  | @invoke task s _ _ _ _ _ _ _ _ _ _ hnext _ _ ihcall ihresume =>
      obtain - | - | - | ⟨hdepth, -⟩ : Progress.Continues s task (.invoke _ _ _ _ _ _) :=
        hnext ▸ task.next_continues _ _
      exact (ihresume.trans ihcall).trans hdepth

/-! ## The frames of the machine -/

/-- The machine in the middle of the recursion, with the frames that it stands for. -/
def Nested.execution (s : Nested) (frames : List Frame) : Execution :=
  { machine := s.machine, heap := s.heap, frames := frames }

namespace Task

/-- What the machine does about a task above the given callers. -/
def status (session : Session) (s : Nested) (callers : List Frame) : Task → Status
  | call m args typeArgs how =>
    match m.callableBody typeArgs with
    | .error error => (s.execution callers).fail error
    | .ok _ => (s.counted.execution callers).enter m args typeArgs how
  | frame f => .running (s.execution (f :: callers))
  | raise f exception => (s.execution (f :: callers)).raise session f callers exception
  | complete f v => (s.execution (f :: callers)).complete f callers v
  | perform f rest => (s.execution (f :: callers)).perform f callers rest
  | prepare f owner rest => (s.execution (f :: callers)).prepare session f callers owner rest
  | resume f how (.ok v) =>
    (s.execution (f :: callers)).finish { f with resume := how } (f :: callers) v
  | resume f _ (.error error) =>
    match error with
    | .exception exception => (s.execution (f :: callers)).raise session f callers exception
    | error => (s.execution (f :: callers)).fail error

end Task

/-- What the machine does about the answer of a method. -/
def Nested.back (session : Session) (s : Nested) (how : Resume) :
    List Frame → Except Fault Value → Status
  | [], answer => .finished s.machine s.heap answer
  | f :: callers, answer => (Task.resume f how answer).status session s callers

/-- What has become of the program, when the recursion has got that far. -/
def Progress.status (session : Session) (how : Resume) (callers : List Frame) : Progress → Status
  | answer result s => s.back session how callers result
  | go task s => task.status session s callers
  | enter f s => .running (s.execution (f :: callers))
  | invoke f m args typeArgs how s =>
    (Task.call m args typeArgs how).status session s (f :: callers)

/-- A fault ends the program. -/
theorem Nested.back_fatal
    {session : Session} {s : Nested} {how : Resume} {callers : List Frame} {error : Fault}
    (herror : error.Fatal) :
  s.back session how callers (.error error) = .finished s.machine s.heap (.error error)
  := by
  cases callers with
  | nil => rfl
  | cons f callers =>
      cases error with
      | exception _ => exact False.elim herror
      | _ => rfl

theorem Nested.counted_of_active {s : Nested} (hactive : s.depth ≠ 0) : s.counted = s :=
  if_neg hactive

/-- A return depends on how the caller goes on. -/
theorem Execution.finish_congr
    {e e' : Execution} {f g : Frame} {callers : List Frame} {v : Value}
    (hmachine : e.machine = e'.machine) (hheap : e.heap = e'.heap) (hresume : f.resume = g.resume) :
  e.finish f callers v = e'.finish g callers v
  := by
  obtain ⟨machine, heap, frames⟩ := e
  obtain ⟨machine', heap', frames'⟩ := e'
  obtain rfl : machine = machine' := hmachine
  obtain rfl : heap = heap' := hheap
  cases callers with
  | nil => rfl
  | cons caller callers =>
      rw [finish, finish, hresume]
      cases g.resume with
      | perform rest => cases rest <;> rfl
      | _ => rfl

namespace Faults

theorem fatal
    {α : Type} {x : Except Fault α} {error : Fault} (hx : Faults Fault.Plain x)
    (h : x = .error error) :
  error.Fatal
  := (hx.of_error h).ordinary.fatal

end Faults

theorem Machine.tick_fatal
    {machine machine' : Machine} {error : Fault} (htick : machine.tick = (.error error, machine')) :
  error.Fatal
  := by
  have hfaults := machine.tick_faults
  rw [htick] at hfaults
  obtain ⟨budget, rfl⟩ := hfaults
  trivial

theorem Surroundings.execute_fatal
    {s : Surroundings} {heap : Heap} {f : Frame} {i : Instruction} {error : Fault}
    (hexecute : s.execute heap f i = .error error) :
  error.Fatal
  := by
  apply Faults.of_error (execute_faults (P := Fault.Fatal) _ _ _) hexecute
  · intro error
    exact Fault.Ordinary.fatal
  · intro _
    trivial
  · intro l _
    rw [Frame.target]
    split <;> trivial

namespace Task

variable {session : Session} {s : Nested} {callers : List Frame}

/-- A call of the recursion is an entry of the machine. -/
theorem call_status
    {m : RealizedMethod} {args : List Value} {typeArgs : List TypeRef} {how : Resume}
    (hdepth : s.depth = callers.length) :
  (call m args typeArgs how).status session s callers
    = ((call m args typeArgs how).next session s).status session how callers
  := by
  have hlimits : s.counted.machine.limits = s.machine.limits := by
    rw [Nested.counted]
    split <;> rfl
  have hoverflow : Fault.stackOverflow.Fatal := trivial
  rw [status, next]
  cases hbody : m.callableBody typeArgs with
  | error error =>
      exact (Nested.back_fatal ((m.callableBody_faults typeArgs).fatal hbody)).symm
  | ok body =>
      have hroom : callers.length < s.counted.machine.limits.maxCallDepth
          ↔ s.depth < s.machine.limits.maxCallDepth := by
        rw [hlimits, hdepth]
      dsimp only
      rw [Execution.enter, hbody]
      by_cases hlow : s.depth < s.machine.limits.maxCallDepth
      · rw [if_pos hlow]
        exact if_pos (hroom.mpr hlow)
      · rw [if_neg hlow]
        exact (if_neg (mt hroom.mp hlow)).trans (Nested.back_fatal hoverflow).symm

/-- A call in a frame, which is active. -/
theorem invoke_status (session : Session)
    {f : Frame} {m : RealizedMethod} {args : List Value} {typeArgs : List TypeRef} {how : Resume}
    (hdepth : s.depth = callers.length + 1) :
  (s.execution (f :: callers)).enter m args typeArgs how
    = (call m args typeArgs how).status session s (f :: callers)
  := by
  rw [status, s.counted_of_active (by omega)]
  split
  · next error hbody => rw [Execution.enter, hbody]
  · rfl

/-- The recursion serves a request as the machine does. -/
theorem request_status
    {request : Request} {f : Frame} (hdepth : s.depth = callers.length + 1) :
  (s.execution (f :: callers)).serve session callers request
    = (request.progress s).status session f.resume callers
  := by
  cases request with
  | proceed g | raise g exception | prepare g owner rest => rfl
  | invoke g m args typeArgs how => exact invoke_status session hdepth
  | finish v =>
      cases callers with
      | nil => rfl
      | cons caller callers =>
          change (s.execution (f :: caller :: callers)).finish f (caller :: callers) v
            = (s.execution (caller :: callers)).finish { caller with resume := f.resume }
              (caller :: callers) v
          exact Execution.finish_congr rfl rfl rfl

/-- An instruction that the frame executes. -/
theorem frame_status {f : Frame} (hdepth : s.depth = callers.length + 1) :
  (s.execution (f :: callers)).step session
    = ((frame f).next session s).status session f.resume callers
  := by
  have hended : ∀ reason, (Fault.runtimeError reason).Fatal := fun _ => trivial
  rw [Execution.step, next]
  dsimp only [Nested.execution]
  cases f.body.instructions[f.ip]? with
  | none => exact (Nested.back_fatal (hended _)).symm
  | some i =>
      rcases htick : s.machine.tick with ⟨error | ⟨⟩, machine⟩
      · exact (Nested.back_fatal (s := { s with machine := machine })
          (Machine.tick_fatal htick)).symm
      · dsimp only
        cases hexecute : Surroundings.execute ⟨session, machine.limits.maxStackDepth⟩ s.heap f i with
        | error error =>
            exact (Nested.back_fatal (s := { s with machine := machine })
              (Surroundings.execute_fatal hexecute)).symm
        | ok answer =>
            exact request_status (s := { s with machine := machine, heap := answer.2 }) hdepth

/-- It raises an exception as the machine does. -/
theorem raise_status {f : Frame} {exception : Value} :
  (s.execution (f :: callers)).raise session f callers exception
    = ((raise f exception).next session s).status session f.resume callers
  := by
  rw [Execution.raise, next, Frame.unwind]
  dsimp only [Nested.execution]
  cases hraise : f.raise session s.machine.limits.maxStackDepth exception with
  | error error =>
      exact (Nested.back_fatal ((Frame.enterHandler_faults _ _ _ _ _ _).fatal hraise)).symm
  | ok answer =>
      cases answer with
      | some g => rfl
      | none =>
          cases callers with
          | nil => rfl
          | cons caller callers => rfl

theorem complete_status {f : Frame} {v : Value} :
  (s.execution (f :: callers)).complete f callers v
    = ((complete f v).next session s).status session f.resume callers
  := by
  rw [Execution.complete, next]
  dsimp only [Nested.execution]
  cases hpush : f.push s.machine.limits.maxStackDepth v with
  | ok g => rfl
  | error error => exact (Nested.back_fatal ((f.push_faults _ v).fatal hpush)).symm

/-- It goes on with an instruction as the machine does. -/
theorem perform_status {f : Frame} {rest : Deferred} (hdepth : s.depth = callers.length + 1) :
  (s.execution (f :: callers)).perform f callers rest
    = ((perform f rest).next session s).status session f.resume callers
  := by
  cases rest with
  | load owner slot =>
      rw [Execution.perform, next]
      dsimp only [Nested.execution]
      cases hstatic : s.machine.static owner slot with
      | ok v => rfl
      | error error =>
          exact (Nested.back_fatal ((s.machine.static_faults owner slot).fatal hstatic)).symm
  | store owner slot v =>
      rw [Execution.perform, next]
      dsimp only [Nested.execution]
      cases hstatic : s.machine.setStatic owner slot v with
      | ok machine => rfl
      | error error =>
          exact (Nested.back_fatal ((s.machine.setStatic_faults owner slot v).fatal hstatic)).symm
  | call m args typeArgs => exact invoke_status session hdepth
  | construct t m args typeArgs =>
      exact invoke_status session
        (s := { s with heap := (s.heap.allocObject t.id (t.instanceDefaults.map Value.toStack)).2 })
        hdepth

/-- It sets up a type as the machine does. -/
theorem prepare_status
    {f : Frame} {owner : TypeId} {rest : Deferred} (hdepth : s.depth = callers.length + 1) :
  (s.execution (f :: callers)).prepare session f callers owner rest
    = ((prepare f owner rest).next session s).status session f.resume callers
  := by
  have hfaults := s.machine.prepare_faults session owner
  rw [Execution.prepare, next]
  dsimp only [Nested.execution]
  rcases hprepare : s.machine.prepare session owner with ⟨error | _ | m, machine⟩
  · rw [hprepare] at hfaults
    exact (Nested.back_fatal (s := { s with machine := machine })
      (Fault.Plain.ordinary hfaults).fatal).symm
  · rfl
  · exact invoke_status session (s := { s with machine := machine }) hdepth

theorem resume_status {f : Frame} {how : Resume} {result : Except Fault Value} :
  (resume f how result).status session s callers
    = ((resume f how result).next session s).status session f.resume callers
  := by
  cases result with
  | ok v => cases how <;> rfl
  | error error =>
      cases error with
      | exception exception => rfl
      | _ => exact (Nested.back_fatal (by trivial)).symm

/-- The machine does about a task what it does about what the task comes to. -/
theorem run_status (task : Task) (hdepth : s.depth = task.active callers) (fuel : Nat) :
  (task.status session s callers).run session (fuel + task.ticks)
    = ((task.next session s).status session task.how callers).run session fuel
  := by
  cases task with
  | call m args typeArgs how => exact congrArg (·.run session fuel) (call_status hdepth)
  | frame f =>
      calc (s.execution (f :: callers)).run session (fuel + 1)
        _ = ((s.execution (f :: callers)).step session).run session fuel := by
          rw [Execution.run]
          cases (s.execution (f :: callers)).step session <;> rfl
        _ = _ := congrArg (·.run session fuel) (frame_status hdepth)
  | raise f exception => exact congrArg (·.run session fuel) raise_status
  | complete f v => exact congrArg (·.run session fuel) complete_status
  | perform f rest => exact congrArg (·.run session fuel) (perform_status hdepth)
  | prepare f owner rest => exact congrArg (·.run session fuel) (prepare_status hdepth)
  | resume f how result => exact congrArg (·.run session fuel) resume_status

/-- A program that is at an instruction has not ended. -/
theorem ticks_le {task : Task} {fuel : Nat} {machine : Machine} {heap : Heap}
    {result : Except Fault Value}
    (hrun : (task.status session s callers).run session fuel = .finished machine heap result) :
  task.ticks ≤ fuel
  := by
  cases task with
  | frame f =>
      cases fuel with
      | zero => cases hrun
      | succ fuel => exact Nat.succ_pos fuel
  | _ => exact Nat.zero_le fuel

end Task

theorem Nested.back_shallower
    {session : Session} {s : Nested} {how : Resume} {callers : List Frame}
    {answer : Except Fault Value} :
  s.shallower.back session how callers answer = s.back session how callers answer
  := by
  cases callers with
  | nil => rfl
  | cons f callers => cases answer <;> rfl

/-- A task that the machine brings to an end has an evaluation, and the machine ends as it does with
the answer.  The induction is on fuel and rank: an instruction takes fuel, and between two of them
the rank falls. -/
theorem Task.evaluates_of_run
    {session : Session} {s : Nested} {fuel : Nat} {machine : Machine} {heap : Heap}
    {result : Except Fault Value} (task : Task) (callers : List Frame)
    (hdepth : s.depth = task.active callers)
    (hrun : (task.status session s callers).run session fuel = .finished machine heap result) :
  ∃ answer s' fuel', Evaluates session task s answer s' ∧ fuel' ≤ fuel
    ∧ (s'.back session task.how callers answer).run session fuel' = .finished machine heap result
  := by
  generalize hmeasure : 6 * fuel + task.rank = measure
  induction measure using Nat.strongRecOn generalizing task s callers fuel with
  | ind measure ih =>
      obtain ⟨fuel, rfl⟩ := Nat.exists_eq_add_of_le' (ticks_le hrun)
      rw [task.run_status hdepth] at hrun
      have hcontinues := task.next_continues session s
      cases hnext : task.next session s with
      | answer answer s' =>
          rw [hnext] at hrun
          exact ⟨answer, s', fuel, .answer hnext, Nat.le_add_right _ _, hrun⟩
      | go task' s₁ =>
          rw [hnext] at hrun hcontinues
          obtain - | ⟨hdepth', hhow, hactive, hrank⟩ := hcontinues
          obtain ⟨answer, s', fuel', heval, hle, hback⟩ :=
            ih (6 * fuel + task'.rank) (by omega) task' callers
              ((hdepth'.trans hdepth).trans (hactive callers).symm) hrun rfl
          rw [hhow] at hback
          exact ⟨answer, s', fuel', .go hnext heval, by omega, hback⟩
      | enter f s₁ =>
          rw [hnext] at hrun hcontinues
          obtain - | - | ⟨hdepth', hhow, hactive, hrank⟩ := hcontinues
          have hdeeper : s₁.deeper.depth = callers.length + 1 :=
            congrArg (· + 1) ((hdepth'.trans hdepth).trans (hactive callers))
          obtain ⟨answer, s', fuel', heval, hle, hback⟩ :=
            ih (6 * fuel + 0) (by omega) (.frame f) callers hdeeper hrun rfl
          have hback : (s'.back session f.resume callers answer).run session fuel'
              = .finished machine heap result := hback
          rw [hhow, ← Nested.back_shallower] at hback
          exact ⟨answer, s'.shallower, fuel', .enter hnext heval, by omega, hback⟩
      | invoke f m args typeArgs how s₁ =>
          rw [hnext] at hrun hcontinues
          obtain - | - | - | ⟨hdepth', hhow, hactive, hrank, hresume⟩ := hcontinues
          have hdepth₁ : s₁.depth = (f :: callers).length :=
            (hdepth'.trans hdepth).trans (hactive callers)
          obtain ⟨answer₁, s₂, fuel₁, heval₁, hle₁, hback₁⟩ :=
            ih (6 * fuel + 1) (by omega) (.call m args typeArgs how) (f :: callers) hdepth₁ hrun rfl
          have hrank' := hresume answer₁
          obtain ⟨answer, s', fuel', heval, hle, hback⟩ :=
            ih (6 * fuel₁ + (Task.resume f how answer₁).rank) (by omega) (.resume f how answer₁)
              callers (heval₁.depth_eq.trans hdepth₁) hback₁ rfl
          have hback : (s'.back session f.resume callers answer).run session fuel'
              = .finished machine heap result := hback
          rw [hhow] at hback
          exact ⟨answer, s', fuel', .invoke hnext heval₁ heval, by omega, hback⟩

/-- The machine brings a task that has an evaluation to the answer. -/
theorem Evaluates.run_status
    {session : Session} {task : Task} {s s' : Nested} {answer : Except Fault Value}
    (heval : Evaluates session task s answer s') (callers : List Frame)
    (hdepth : s.depth = task.active callers) (fuel' : Nat) :
  ∃ fuel, (task.status session s callers).run session fuel
    = (s'.back session task.how callers answer).run session fuel'
  := by
  induction heval generalizing callers fuel' with
  | @answer task s _ _ hnext =>
      refine ⟨fuel' + task.ticks, ?_⟩
      rw [task.run_status hdepth, hnext]
      rfl
  | @go task task' s _ _ _ hnext _ ih =>
      obtain - | ⟨hdepth', hhow, hactive, -⟩ : Progress.Continues s task (.go _ _) :=
        hnext ▸ task.next_continues _ _
      obtain ⟨fuel, hfuel⟩ :=
        ih callers ((hdepth'.trans hdepth).trans (hactive callers).symm) fuel'
      refine ⟨fuel + task.ticks, ?_⟩
      rw [task.run_status hdepth, hnext, ← hhow]
      exact hfuel
  | @enter task s s₁ s' f _ hnext _ ih =>
      obtain - | - | ⟨hdepth', hhow, hactive, -⟩ : Progress.Continues s task (.enter _ _) :=
        hnext ▸ task.next_continues _ _
      have hdeeper : s₁.deeper.depth = callers.length + 1 :=
        congrArg (· + 1) ((hdepth'.trans hdepth).trans (hactive callers))
      obtain ⟨fuel, hfuel⟩ := ih callers hdeeper fuel'
      refine ⟨fuel + task.ticks, ?_⟩
      rw [task.run_status hdepth, hnext, Nested.back_shallower, ← hhow]
      exact hfuel
  | @invoke task s s₁ _ _ f _ _ _ how result _ hnext hcall _ ihcall ihresume =>
      obtain - | - | - | ⟨hdepth', hhow, hactive, -, -⟩ :
          Progress.Continues s task (.invoke _ _ _ _ _ _) :=
        hnext ▸ task.next_continues _ _
      have hdepth₁ : s₁.depth = (f :: callers).length :=
        (hdepth'.trans hdepth).trans (hactive callers)
      obtain ⟨fuel₂, hfuel₂⟩ := ihresume callers (hcall.depth_eq.trans hdepth₁) fuel'
      obtain ⟨fuel₁, hfuel₁⟩ := ihcall (f :: callers) hdepth₁ fuel₂
      refine ⟨fuel₁ + task.ticks, ?_⟩
      rw [task.run_status hdepth, hnext, ← hhow]
      exact hfuel₁.trans hfuel₂

/-! ## Calls of the host -/

namespace Launch

variable {session : Session} {l : Launch} {result : Except Fault Value} {s : Nested}

/-- The run as a call that no method makes. -/
def task (l : Launch) : Task :=
  .call l.method l.args l.typeArgs .dropResult

theorem task_status (hcallable : l.Callable) :
  l.task.status session ⟨l.host, 0⟩ [] = l.entered
  := by
  obtain ⟨body, hbody⟩ := hcallable
  have hstart : (Nested.mk l.host 0).counted.execution [] = l.start := rfl
  rw [task, Task.status, hbody, hstart]
  rfl

/-- The recursion ends as the machine does. -/
theorem evaluates_iff (hcallable : l.Callable) :
  Evaluates session l.task ⟨l.host, 0⟩ result s
    ↔ s.depth = 0 ∧ ∃ fuel, l.entered.run session fuel = .finished s.machine s.heap result
  := by
  rw [← task_status hcallable]
  constructor
  · intro heval
    obtain ⟨fuel, hfuel⟩ := heval.run_status [] rfl 0
    exact ⟨heval.depth_eq, fuel, hfuel⟩
  · rintro ⟨hdepth, fuel, hrun⟩
    obtain ⟨answer, s', fuel', heval, -, hback⟩ := l.task.evaluates_of_run [] rfl hrun
    have hdepth' : s'.depth = 0 := heval.depth_eq
    obtain ⟨⟨machine', heap'⟩, depth'⟩ := s'
    obtain ⟨⟨machine, heap⟩, depth⟩ := s
    obtain rfl : depth' = 0 := hdepth'
    obtain rfl : depth = 0 := hdepth
    cases hback
    exact heval

theorem evaluates_of_finished
    {machine : Machine} {heap : Heap} (hcallable : l.Callable)
    (hfinished : l.status session = .finished machine heap result) :
  Evaluates session l.task ⟨l.host, 0⟩ result ⟨⟨machine, heap⟩, 0⟩
  := by
  rw [status_eq_run] at hfinished
  exact (evaluates_iff hcallable).mpr ⟨rfl, l.host.machine.limits.fuel, hfinished⟩

end Launch

/-- What an operation of the host does to the machine, the heap and the call depth. -/
inductive Nested.Course (session : Session) : Nested → List Launch → Nested → Prop
  | refl (s : Nested) : Course session s [] s
  | change {s s' : Nested} {host : HostState} {launches : List Launch}
      (hchange : s.toHostState.Changes session host)
      (hrest : Course session ⟨host, s.depth⟩ launches s') :
      Course session s launches s'
  | run (l : Launch) {s s' : Nested} {depth : Nat} {result : Except Fault Value}
      {launches : List Launch}
      (heval : Evaluates session l.task ⟨l.host, depth⟩ result s)
      (hrest : Course session s launches s') :
      Course session ⟨l.host, depth⟩ (l :: launches) s'

/-- The launches of a host call leave the depth as it was. -/
theorem Nested.Course.depth_eq
    {session : Session} {s s' : Nested} {launches : List Launch}
    (hcourse : Course session s launches s') :
  s'.depth = s.depth
  := by
  induction hcourse with
  | refl => rfl
  | change _ _ ih => exact ih
  | run l heval _ ih => exact ih.trans heval.depth_eq

/-- Runs that end leave no method active. -/
theorem HostState.Course.nested
    {session : Session} {host host' : HostState} {launches : List Launch}
    (hcourse : host.Course session launches host') (hcallable : ∀ l ∈ launches, l.Callable)
    (hfinished : ∀ l ∈ launches, (l.status session).answer ≠ .error .unfinished) :
  Nested.Course session ⟨host, 0⟩ launches ⟨host', 0⟩
  := by
  induction hcourse with
  | refl host => exact .refl _
  | change hchange _ ih => exact .change hchange (ih hcallable hfinished)
  | run l _ ih =>
      obtain ⟨hl, hcallable⟩ := List.forall_mem_cons.mp hcallable
      obtain ⟨hended, hfinished⟩ := List.forall_mem_cons.mp hfinished
      cases hstatus : l.status session with
      | running e =>
          rw [hstatus] at hended
          exact absurd rfl hended
      | finished machine heap result =>
          have hrest := ih hcallable hfinished
          rw [hstatus] at hrest
          exact .run l (Launch.evaluates_of_finished hl hstatus) hrest

/-- If a call ends, so do its runs. -/
theorem HostCall.finished_of_answer
    {session : Session} {call : HostCall} {host : HostState}
    (hanswer : ((call.perform session).exec host).1 ≠ .error .unfinished) :
  ∀ l ∈ call.launches session host, (l.status session).answer ≠ .error .unfinished
  := by
  have hfails := (call.runs session host).fails
  have hfew := call.few session host
  generalize call.launches session host = launches at *
  have hlast : ∀ l ∈ launches.getLast?, (l.status session).answer ≠ .error .unfinished :=
    fun l hl hunfinished => hanswer (hfails l hl _ hunfinished)
  cases hfew with
  | none => rintro l ⟨⟩
  | one l => exact List.forall_mem_singleton.mpr (hlast l rfl)
  | two first second hfirst =>
      refine List.forall_mem_cons.mpr ⟨?_, List.forall_mem_singleton.mpr (hlast second rfl)⟩
      rw [hfirst]
      rintro ⟨⟩

/-- At every moment of a call of the host the program is within the limits of the machine, and when
the call has ended, with a value or a fault, no method is active any more: its runs are calls by
recursion, and these leave the call depth as it was. -/
theorem HostCall.within_limits (session : Session) (call : HostCall) (host : HostState) :
  (∀ l ∈ call.launches session host, ∀ e e', l.entered = .running e →
      Execution.Reaches session e e' → e'.Within host.machine.limits)
  ∧ (((call.perform session).exec host).1 ≠ .error .unfinished →
      Nested.Course session ⟨host, 0⟩ (call.launches session host)
        ⟨((call.perform session).exec host).2, 0⟩)
  ∧ ∀ s launches s', Nested.Course session s launches s' → s'.depth = s.depth
  := by
  have hcourse := (call.runs session host).course
  refine ⟨?_, ?_, fun s launches s' => Nested.Course.depth_eq⟩
  · intro l hl e e' hentered hreaches
    have hwithin := hreaches.within (Execution.within_of_enter rfl hentered)
    rw [show l.start.machine.limits = host.machine.limits from hcourse.limits l hl] at hwithin
    exact hwithin
  · intro hanswer
    exact hcourse.nested (call.launches_callable session host) (finished_of_answer hanswer)

/-! ## A recursion without end -/

/-- A static method that calls itself with a value on its stack. -/
def descendingMethod : RealizedMethod :=
  { (default : RealizedMethod) with
    handle := ⟨⟨1⟩, 0⟩
    name := "Descend"
    attributes := { isStatic := true }
    returnType := .void
    body := some
      { instructions := #[⟨.ldnull, .none⟩, ⟨.call, .method ⟨⟨1⟩, 0⟩⟩, ⟨.pop, .none⟩, ⟨.ret, .none⟩]
        labels := #[]
        locals := #[]
        regions := []
        maxStack := 1 } }

def descendingSession : Session :=
  { types := [{ (default : RealizedType) with
      handle := { (default : DefinedType) with id := ⟨1⟩ }
      methods := [descendingMethod] }] }

/-- A host whose machine has room for three frames with one value each. -/
def shallowHost : HostState :=
  { machine := { limits := { maxCallDepth := 3, stepBudget := some 8, maxStackDepth := 1 } }
    heap := {} }

def descendingCall : HostCall :=
  .call ⟨⟨1⟩, 0⟩ none []

/-- The fourth call overflows; no state of the run has more than three frames, and after it no
method is active. -/
theorem descendingCall_within_limits :
  ((descendingCall.perform descendingSession).exec shallowHost).1 = .error (.fault .stackOverflow)
  ∧ (descendingCall.launches descendingSession shallowHost).length = 1
  ∧ (∀ l ∈ descendingCall.launches descendingSession shallowHost, ∀ e e',
      l.entered = .running e → Execution.Reaches descendingSession e e' → e'.frames.length ≤ 3)
  ∧ Nested.Course descendingSession ⟨shallowHost, 0⟩
      (descendingCall.launches descendingSession shallowHost)
      ⟨((descendingCall.perform descendingSession).exec shallowHost).2, 0⟩
  := by
  obtain ⟨hwithin, hended, -⟩ :=
    HostCall.within_limits descendingSession descendingCall shallowHost
  have hoverflow : ((descendingCall.perform descendingSession).exec shallowHost).1
      = .error (.fault .stackOverflow) := rfl
  refine ⟨hoverflow, rfl, fun l hl e e' hentered hreaches => ?_, hended ?_⟩
  · exact (hwithin l hl e e' hentered hreaches).frames_le
  · rw [hoverflow]
    rintro ⟨⟩

end ManagedCode
