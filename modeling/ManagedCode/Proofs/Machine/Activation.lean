import ManagedCode.Machine.Host
import ManagedCode.Proofs.Machine.Effect

/-!
# Activations

The run of a single frame.  A frame is ready for its next instruction, waits for a
callee or for the initializer of a type, or is where an exception has been raised.
`Activation.Step` has one rule for each way on; what the rest of the machine does is
left open, so a callee may return anything or let any exception through.

Every frame of a running program goes through the steps of an activation, and its
callers wait for it.  A property of activations that is true of a new frame and kept
by the steps is therefore true of every frame at every moment, which
`Execution.Reaches.keeps` states.
-/

namespace ManagedCode

/-- What a frame is about to do. -/
inductive Phase where
  | ready
  | waiting (resume : Resume)
  | raising (exception : Value)

/-- A frame together with what it is doing. -/
structure Activation where
  frame : Frame
  phase : Phase

/-- The frame after a request.  A return leaves none. -/
def Request.after : Request → Option Activation
  | proceed f => some ⟨f, .ready⟩
  | finish _ => none
  | raise f exception => some ⟨f, .raising exception⟩
  | invoke f _ _ _ resume => some ⟨f, .waiting resume⟩
  | prepare f _ rest => some ⟨f, .waiting (.perform rest)⟩

namespace Activation

variable {session : Session} {limit : Nat} {a b c : Activation}

/-- One step of a frame.  The stack may hold `limit` values. -/
inductive Step (session : Session) (limit : Nat) : Activation → Activation → Prop
  | execute {f : Frame} {i : Instruction} {heap heap' : Heap} {request : Request} {b : Activation}
      (hinstruction : f.body.instructions[f.ip]? = some i)
      (hexecute : Surroundings.execute ⟨session, limit⟩ heap f i = .ok (request, heap'))
      (hafter : request.after = some b) :
      Step session limit ⟨f, .ready⟩ b
  | passed {f : Frame} {resume : Resume} {exception : Value} :
      Step session limit ⟨f, .waiting resume⟩ ⟨f, .raising exception⟩
  | handled {f g : Frame} {exception : Value}
      (hraise : f.raise session limit exception = .ok (some g)) :
      Step session limit ⟨f, .raising exception⟩ ⟨g, .ready⟩
  | result {f g : Frame} {v : Value} (hpush : f.push limit v = .ok g) :
      Step session limit ⟨f, .waiting .pushResult⟩ ⟨g.advance, .ready⟩
  | dropped {f : Frame} :
      Step session limit ⟨f, .waiting .dropResult⟩ ⟨f.advance, .ready⟩
  | object {f g : Frame} {v : Value} (hpush : f.push limit v = .ok g) :
      Step session limit ⟨f, .waiting (.pushObject v)⟩ ⟨g.advance, .ready⟩
  | loaded {f g : Frame} {owner : TypeId} {slot : Nat} {v : Value} (hpush : f.push limit v = .ok g) :
      Step session limit ⟨f, .waiting (.perform (.load owner slot))⟩ ⟨g.advance, .ready⟩
  | stored {f : Frame} {owner : TypeId} {slot : Nat} {v : Value} :
      Step session limit ⟨f, .waiting (.perform (.store owner slot v))⟩ ⟨f.advance, .ready⟩
  | called {f : Frame} {m : RealizedMethod} {args : List Value} {typeArgs : List TypeRef} :
      Step session limit ⟨f, .waiting (.perform (.call m args typeArgs))⟩
        ⟨f, .waiting (Surroundings.resumeFor m)⟩
  | constructed {f : Frame} {t : RealizedType} {m : RealizedMethod} {args : List Value}
      {typeArgs : List TypeRef} {r : ObjectRef} :
      Step session limit ⟨f, .waiting (.perform (.construct t m args typeArgs))⟩
        ⟨f, .waiting (.pushObject (.object r))⟩

/-- A run of a frame, with the states that it goes through before the last one. -/
inductive Run (session : Session) (limit : Nat) :
    Activation → List Activation → Activation → Prop
  | refl {a : Activation} : Run session limit a [] a
  | step {a b c : Activation} {states : List Activation} (hstep : Step session limit a b)
      (hrun : Run session limit b states c) : Run session limit a (a :: states) c

/-- The activation of a method that has just been entered. -/
def enter (m : RealizedMethod) (body : MethodBody) (args : List Value) (typeArgs : List TypeRef)
    (resume : Resume) : Activation :=
  ⟨.enter m body args typeArgs resume, .ready⟩

/-- A run goes on by one step. -/
theorem Run.snoc {states : List Activation} (hrun : Run session limit a states b)
    (hstep : Step session limit b c) :
  Run session limit a (states ++ [b]) c
  := by
  induction hrun with
  | refl => exact .step hstep .refl
  | step hfirst _ ih => exact .step hfirst (ih hstep)

/-- A run that starts with an instruction of the frame. -/
theorem Run.next {f : Frame} {states : List Activation} (i : Instruction) (heap : Heap)
    {heap' : Heap} {request : Request}
    (hinstruction : f.body.instructions[f.ip]? = some i)
    (hexecute : Surroundings.execute ⟨session, limit⟩ heap f i = .ok (request, heap'))
    (hafter : request.after = some b) (hrun : Run session limit b states c) :
  Run session limit ⟨f, .ready⟩ (⟨f, .ready⟩ :: states) c
  := .step (.execute hinstruction hexecute hafter) hrun

/-- Two runs make one. -/
theorem Run.trans {states states' : List Activation} (hrun : Run session limit a states b)
    (hrest : Run session limit b states' c) :
  Run session limit a (states ++ states') c
  := by
  induction hrun with
  | refl => exact hrest
  | step hfirst _ ih => exact .step hfirst (ih hrest)

/-- What the steps keep, runs keep. -/
theorem Run.keeps {P : Activation → Prop} {states : List Activation}
    (hP : ∀ a b, P a → Step session limit a b → P b) (hrun : Run session limit a states b)
    (ha : P a) :
  P b
  := by
  induction hrun with
  | refl => exact ha
  | step hstep _ ih => apply ih (hP _ _ ha hstep)

end Activation

/-! ## Where an exception goes -/

namespace Frame

variable {f g : Frame}

/-- What becomes of a frame when the handler of a region takes an exception. -/
inductive Catches (f : Frame) (exception : Value) (index : Nat) (r : Region) : Frame → Prop
  | finalizing (hkind : r.kind = .finalizing) :
      Catches f exception index r
        { f with
          stack := []
          pending := .unwind index exception :: f.pending
          ip := r.handlerStart }
  | catching {t : TypeRef} (hkind : r.kind = .catching t) :
      Catches f exception index r
        { f with
          stack := [exception.toStack]
          handling := (index, exception) :: f.handling
          ip := r.handlerStart }

/-- The handler that is entered is that of a region which protects the throwing instruction. -/
theorem enterHandler_yields {short : Prop} (session : Session) (limit : Nat) (f : Frame)
    (exception : Value) (regions : List Region) (index : Nat) :
  Yields short
    (fun answer => ∀ g, answer = some g → ∃ k r, regions[k]? = some r ∧ r.protects f.ip
      ∧ f.Catches exception (index + k) r g)
    (enterHandler session limit f exception index regions)
  := by
  induction regions generalizing index with
  | nil =>
      rintro g ⟨⟩
  | cons r rest ih =>
      have hlater : Yields short
          (fun answer => ∀ g, answer = some g → ∃ k r', (r :: rest)[k]? = some r'
            ∧ r'.protects f.ip ∧ f.Catches exception (index + k) r' g)
          (enterHandler session limit f exception (index + 1) rest) := by
        apply (ih (index + 1)).mono id
        intro answer hanswer g hg
        obtain ⟨k, r', hr', hprotects, hcatches⟩ := hanswer g hg
        rw [Nat.add_assoc, Nat.add_comm 1] at hcatches
        exact ⟨k + 1, r', hr', hprotects, hcatches⟩
      rw [enterHandler]
      split
      · next hprotects =>
        split
        · next hkind =>
          rintro g ⟨⟩
          exact ⟨0, r, rfl, hprotects, .finalizing hkind⟩
        · next t hkind =>
          split
          · rw [push]
            split
            · rintro g ⟨⟩
              exact ⟨0, r, rfl, hprotects, .catching hkind⟩
            · trivial
          · exact hlater
      · exact hlater

/-- An exception is taken by a region around the instruction, after the handlers that
hold the instruction have been given up. -/
theorem raise_yields {short : Prop} (session : Session) (limit : Nat) (f : Frame)
    (exception : Value) :
  Yields short
    (fun answer => ∀ g, answer = some g → ∃ index r, f.body.regions[index]? = some r
      ∧ r.protects f.ip ∧ f.abandonHandlers.Catches exception index r g)
    (f.raise session limit exception)
  := by
  apply (enterHandler_yields session limit f.abandonHandlers exception f.body.regions 0).mono id
  intro answer hanswer g hg
  obtain ⟨k, r, hr, hprotects, hcatches⟩ := hanswer g hg
  rw [Nat.zero_add] at hcatches
  exact ⟨k, r, hr, hprotects, hcatches⟩

/-- An exception is caught by a region of the body that protects the throwing instruction. -/
theorem raise_ok {session : Session} {limit : Nat} {exception : Value}
    (hraise : f.raise session limit exception = .ok (some g)) :
  ∃ index r, f.body.regions[index]? = some r ∧ r.protects f.ip
    ∧ f.abandonHandlers.Catches exception index r g
  := by
  have hyields : Yields False _ _ := raise_yields session limit f exception
  apply hyields.of_ok hraise g rfl

/-- A push adds one value and leaves control where it is. -/
theorem push_ok {limit : Nat} {v : Value} (hpush : f.push limit v = .ok g) :
  f.Rewrites 0 1 g ∧ g.ip = f.ip
  := by
  have hyields : Yields False _ _ := f.push_yields limit v
  apply hyields.of_ok hpush

/-- The finally regions between an instruction and a target protect the instruction. -/
theorem mem_finalliesBetween {ip target j : Nat} (hj : j ∈ f.finalliesBetween ip target) :
  ∃ r, f.body.regions[j]? = some r ∧ r.kind = .finalizing ∧ r.protects ip
  := by
  obtain ⟨⟨k, r⟩, hmem, hsome⟩ := List.mem_filterMap.mp hj
  obtain ⟨k', hk', hpair⟩ := List.mem_mapIdx.mp hmem
  cases hpair
  dsimp only at hsome
  split at hsome
  · next hfinally =>
    cases hsome
    exact ⟨_, List.getElem?_eq_getElem hk', hfinally.1, hfinally.2.1⟩
  · cases hsome

/-! ## A frame keeps its method -/

/-- A handler runs in the activation that has raised the exception. -/
theorem Catches.sameCall {exception : Value} {index : Nat} {r : Region}
    (hcatches : f.Catches exception index r g) :
  f.SameCall g
  := by
  cases hcatches <;> exact ⟨rfl, rfl, rfl, rfl⟩

theorem raise_sameCall {session : Session} {limit : Nat} {exception : Value}
    (hraise : f.raise session limit exception = .ok (some g)) :
  f.SameCall g
  := by
  obtain ⟨index, r, -, -, hcatches⟩ := raise_ok hraise
  have hkept : f.SameCall f.abandonHandlers := ⟨rfl, rfl, rfl, rfl⟩
  apply hkept.trans hcatches.sameCall

theorem continueTo_sameCall (f : Frame) (target : Nat) (finallies : List Nat) :
  f.SameCall (f.continueTo target finallies)
  := by
  cases finallies <;> exact ⟨rfl, rfl, rfl, rfl⟩

theorem leave_sameCall (f : Frame) (target : Nat) : f.SameCall (f.leave target) := by
  have hkept : f.SameCall { f with
      stack := []
      handling := f.handling.filter fun entry => f.keepsHandling target entry.1 } :=
    ⟨rfl, rfl, rfl, rfl⟩
  apply hkept.trans (continueTo_sameCall _ target _)

end Frame

/-- An instruction leaves the activation what it is. -/
theorem Surroundings.Outcome.sameCall
    {s : Surroundings} {f : Frame} {i : Instruction} {request : Request} {a : Activation}
    (houtcome : s.Outcome f i request) (hafter : request.after = some a) :
  f.SameCall a.frame
  := by
  cases houtcome with
  | next _ _ hg _ | branch _ _ hg _ | throw _ hg _ _ | invoke _ _ _ hg _ _ _
  | callStatic _ _ _ hg _ _ | construct _ _ _ _ hg _ _ | storeStatic _ hg _ _ =>
      obtain rfl := Option.some.inj hafter
      exact hg.toSameCall
  | leave _ _ _ =>
      obtain rfl := Option.some.inj hafter
      apply f.leave_sameCall _
  | endLeave _ _ =>
      obtain rfl := Option.some.inj hafter
      have hended : ∀ pending, f.SameCall { f with stack := [], pending := pending } :=
        fun _ => ⟨rfl, rfl, rfl, rfl⟩
      apply (hended _).trans (Frame.continueTo_sameCall _ _ _)
  | endUnwind _ _ | rethrow _ _ | loadStatic _ =>
      obtain rfl := Option.some.inj hafter
      exact ⟨rfl, rfl, rfl, rfl⟩
  | finish _ _ => cases hafter

/-- Every instruction has one of the outcomes that are listed. -/
theorem Surroundings.execute_outcome
    {s : Surroundings} {heap heap' : Heap} {f : Frame} {i : Instruction} {request : Request}
    (hexecute : s.execute heap f i = .ok (request, heap')) :
  s.Outcome f i request
  := (s.execute_yields heap f i).of_ok hexecute

/-- A step leaves the activation what it is. -/
theorem Activation.Step.sameCall
    {session : Session} {limit : Nat} {a b : Activation} (hstep : Step session limit a b) :
  a.frame.SameCall b.frame
  := by
  cases hstep with
  | execute _ hexecute hafter => apply (Surroundings.execute_outcome hexecute).sameCall hafter
  | handled hraise => apply Frame.raise_sameCall hraise
  | result hpush | object hpush | loaded hpush =>
      exact (Frame.push_ok hpush).1.toSameCall.trans ⟨rfl, rfl, rfl, rfl⟩
  | passed | dropped | stored | called | constructed => exact ⟨rfl, rfl, rfl, rfl⟩

/-! ## The frames of a running program -/

/-- The frames of a machine, the innermost in the given phase and each caller waiting
for the frame that it has called. -/
def Activation.ofFrames : Phase → List Frame → List Activation
  | _, [] => []
  | phase, f :: callers => ⟨f, phase⟩ :: ofFrames (.waiting f.resume) callers

theorem Activation.exists_of_mem {phase : Phase} {f : Frame} {frames : List Frame}
    (hf : f ∈ frames) :
  ∃ phase', ⟨f, phase'⟩ ∈ ofFrames phase frames
  := by
  induction frames generalizing phase with
  | nil => cases hf
  | cons g callers ih =>
      rcases List.mem_cons.mp hf with rfl | hf
      · exact ⟨phase, List.mem_cons_self⟩
      · obtain ⟨phase', hmem⟩ := ih hf
        exact ⟨phase', List.mem_cons_of_mem _ hmem⟩

/-- A property of activations that is true of new frames and kept by their steps. -/
structure Activation.Invariant (session : Session) (limit : Nat) (P : Activation → Prop) :
    Prop where
  enter : ∀ {m body args typeArgs resume},
    m.callableBody typeArgs = .ok body → P (.enter m body args typeArgs resume)
  step : ∀ {a b}, P a → Step session limit a b → P b

/-- A frame has come where it is from the start of its method. -/
def Activation.Reached (session : Session) (limit : Nat) (a : Activation) : Prop :=
  ∃ m body args typeArgs resume states, m.callableBody typeArgs = .ok body
    ∧ Run session limit (.enter m body args typeArgs resume) states a

/-- What activations reach from their entries is an invariant. -/
theorem Activation.reached_invariant (session : Session) (limit : Nat) :
  Invariant session limit (Reached session limit)
  := by
  constructor
  · intro m body args typeArgs resume hbody
    exact ⟨m, body, args, typeArgs, resume, [], hbody, .refl⟩
  · rintro a b ⟨m, body, args, typeArgs, resume, states, hbody, hrun⟩ hstep
    exact ⟨m, body, args, typeArgs, resume, states ++ [a], hbody, hrun.snoc hstep⟩

namespace Execution

/-- The innermost frame of a running program is ready. -/
def activations (e : Execution) : List Activation :=
  Activation.ofFrames .ready e.frames

/-- A program with the given limits and with a property of all its frames, the
innermost in the given phase. -/
structure Has (limits : Limits) (P : Activation → Prop) (phase : Phase) (e : Execution) :
    Prop where
  limits_eq : e.machine.limits = limits
  frames : ∀ a ∈ Activation.ofFrames phase e.frames, P a

end Execution

/-- If the program goes on, then with the given limits and with a property of all its
frames. -/
def Status.Keeps (limits : Limits) (P : Activation → Prop) : Status → Prop
  | .running e => e.Has limits P .ready
  | .finished _ _ _ => True

/-- Setting up a type does not change the limits. -/
theorem Machine.prepare_limits (machine : Machine) (session : Session) (id : TypeId) :
  (machine.prepare session id).2.limits = machine.limits
  := by
  rw [Machine.prepare]
  dsimp only
  split
  · rfl
  · split
    · rfl
    · split
      · rfl
      · split <;> rfl

theorem Machine.setStatic_limits
    {machine machine' : Machine} {id : TypeId} {slot : Nat} {v : Value}
    (hset : machine.setStatic id slot v = .ok machine') :
  machine'.limits = machine.limits
  := by
  rw [Machine.setStatic] at hset
  split at hset
  · split at hset
    · cases hset
      rfl
    · cases hset
  · cases hset

theorem Machine.tick_limits (machine : Machine) : machine.tick.2.limits = machine.limits := by
  rw [Machine.tick]
  dsimp only
  split
  · split <;> rfl
  · rfl

namespace Execution

variable {session : Session} {limits : Limits} {P : Activation → Prop} {e e' : Execution}
  {f : Frame} {callers : List Frame}

theorem has_withFrame_iff {phase : Phase} :
  (e.withFrame f callers).Has limits P phase
    ↔ e.machine.limits = limits ∧ P ⟨f, phase⟩
      ∧ ∀ a ∈ Activation.ofFrames (.waiting f.resume) callers, P a
  := by
  constructor
  · rintro ⟨hlimits, hframes⟩
    exact ⟨hlimits, List.forall_mem_cons.mp hframes⟩
  · rintro ⟨hlimits, hframes⟩
    exact ⟨hlimits, List.forall_mem_cons.mpr hframes⟩

/-- A method that is entered has the property, for it starts in its entry state. -/
theorem enter_keeps
    (hP : Activation.Invariant session limits.maxStackDepth P)
    {m : RealizedMethod} {args : List Value} {typeArgs : List TypeRef} {resume : Resume}
    (he : e.Has limits P (.waiting resume)) :
  (e.enter m args typeArgs resume).Keeps limits P
  := by
  rw [enter]
  split
  · trivial
  · next body hbody =>
    split
    · apply has_withFrame_iff.mpr ⟨he.limits_eq, hP.enter hbody, he.frames⟩
    · trivial

theorem complete_keeps {v : Value}
    (hlimits : e.machine.limits = limits)
    (hf : ∀ g, f.push limits.maxStackDepth v = .ok g → P ⟨g.advance, .ready⟩)
    (hcallers : ∀ a ∈ Activation.ofFrames (.waiting f.resume) callers, P a) :
  (e.complete f callers v).Keeps limits P
  := by
  rw [complete]
  rw [hlimits]
  split
  · next g hg =>
    have hresume : g.advance.resume = f.resume := (Frame.push_ok hg).1.resume
    rw [← hresume] at hcallers
    apply has_withFrame_iff.mpr ⟨hlimits, hf g hg, hcallers⟩
  · trivial

/-- The rest of an instruction, in a frame that waits to perform it. -/
theorem perform_keeps
    (hP : Activation.Invariant session limits.maxStackDepth P) {rest : Deferred}
    (he : (e.withFrame f callers).Has limits P (.waiting (.perform rest))) :
  (e.perform f callers rest).Keeps limits P
  := by
  obtain ⟨hlimits, hf, hcallers⟩ := has_withFrame_iff.mp he
  cases rest with
  | load owner slot =>
      rw [perform]
      split
      · apply complete_keeps hlimits
        · intro g hg
          apply hP.step hf (.loaded hg)
        · exact hcallers
      · trivial
  | store owner slot v =>
      rw [perform]
      split
      · next machine hmachine =>
        have hlimits' : machine.limits = limits :=
          (Machine.setStatic_limits hmachine).trans hlimits
        apply has_withFrame_iff (e := { e with machine := machine }).mpr
          ⟨hlimits', hP.step hf .stored, hcallers⟩
      · trivial
  | call m args typeArgs =>
      rw [perform]
      apply enter_keeps hP
      apply has_withFrame_iff.mpr ⟨hlimits, hP.step hf .called, hcallers⟩
  | construct t m args typeArgs =>
      rw [perform]
      apply enter_keeps hP
      exact has_withFrame_iff.mpr ⟨hlimits, hP.step hf .constructed, hcallers⟩

/-- The property is kept when the static side of a type is set up. -/
theorem prepare_keeps
    (hP : Activation.Invariant session limits.maxStackDepth P) {owner : TypeId} {rest : Deferred}
    (he : (e.withFrame f callers).Has limits P (.waiting (.perform rest))) :
  (e.prepare session f callers owner rest).Keeps limits P
  := by
  have hprepared := e.machine.prepare_limits session owner
  obtain ⟨hlimits, hframes⟩ := has_withFrame_iff.mp he
  rw [prepare]
  split
  · trivial
  · next machine hmachine =>
    rw [hmachine] at hprepared
    apply perform_keeps hP
    apply has_withFrame_iff.mpr ⟨hprepared.trans hlimits, hframes⟩
  · next m machine hmachine =>
    rw [hmachine] at hprepared
    apply enter_keeps hP
    apply has_withFrame_iff.mpr ⟨hprepared.trans hlimits, hframes⟩

/-- It is kept when a frame returns. -/
theorem finish_keeps
    (hP : Activation.Invariant session limits.maxStackDepth P) {v : Value}
    (hlimits : e.machine.limits = limits)
    (hcallers : ∀ a ∈ Activation.ofFrames (.waiting f.resume) callers, P a) :
  (e.finish f callers v).Keeps limits P
  := by
  cases callers with
  | nil => trivial
  | cons caller callers =>
      obtain ⟨hcaller, hrest⟩ := List.forall_mem_cons.mp hcallers
      rw [finish]
      cases hresume : f.resume with
      | pushResult =>
          rw [hresume] at hcaller
          apply complete_keeps hlimits
          · intro g hg
            apply hP.step hcaller (.result hg)
          · exact hrest
      | dropResult =>
          rw [hresume] at hcaller
          apply has_withFrame_iff.mpr ⟨hlimits, hP.step hcaller .dropped, hrest⟩
      | pushObject object =>
          rw [hresume] at hcaller
          apply complete_keeps hlimits
          · intro g hg
            apply hP.step hcaller (.object hg)
          · exact hrest
      | perform rest =>
          rw [hresume] at hcaller
          apply perform_keeps hP
          apply has_withFrame_iff.mpr ⟨hlimits, hcaller, hrest⟩

/-- An exception passes through the callers that do not handle it. -/
theorem unwind_keeps
    (hP : Activation.Invariant session limits.maxStackDepth P) {exception : Value}
    {frames frames' : List Frame}
    (hunwind : Frame.unwind session limits.maxStackDepth exception frames = .ok frames')
    (hframes : ∀ a ∈ Activation.ofFrames (.raising exception) frames, P a) :
  ∀ a ∈ Activation.ofFrames .ready frames', P a
  := by
  induction frames with
  | nil =>
      cases hunwind
      intro a ha
      cases ha
  | cons f callers ih =>
      obtain ⟨hf, hcallers⟩ := List.forall_mem_cons.mp hframes
      rw [Frame.unwind] at hunwind
      cases hraise : f.raise session limits.maxStackDepth exception with
      | error error =>
          rw [hraise] at hunwind
          cases hunwind
      | ok answer =>
          rw [hraise] at hunwind
          cases answer with
          | some g =>
              cases hunwind
              rw [← (Frame.raise_sameCall hraise).resume] at hcallers
              apply List.forall_mem_cons.mpr ⟨hP.step hf (.handled hraise), hcallers⟩
          | none =>
              apply ih hunwind
              cases callers with
              | nil => exact hcallers
              | cons caller callers =>
                  obtain ⟨hcaller, hrest⟩ := List.forall_mem_cons.mp hcallers
                  apply List.forall_mem_cons.mpr ⟨hP.step hcaller .passed, hrest⟩

/-- It is kept when an exception is raised, however many frames it leaves. -/
theorem raise_keeps
    (hP : Activation.Invariant session limits.maxStackDepth P) {exception : Value}
    (he : (e.withFrame f callers).Has limits P (.raising exception)) :
  (e.raise session f callers exception).Keeps limits P
  := by
  obtain ⟨hlimits, hframes⟩ := he
  rw [raise]
  split
  · trivial
  · trivial
  · next frames _ hunwind =>
    refine ⟨hlimits, ?_⟩
    rw [show e.machine.limits = limits from hlimits] at hunwind
    apply unwind_keeps hP hunwind hframes

/-- One instruction of a running program is a step of its innermost frame, and of
each caller that it returns to or unwinds. -/
theorem step_keeps
    (hP : Activation.Invariant session limits.maxStackDepth P) (he : e.Has limits P .ready) :
  (e.step session).Keeps limits P
  := by
  obtain ⟨machine, heap, frames⟩ := e
  rw [step]
  cases frames with
  | nil => trivial
  | cons f callers =>
      obtain ⟨hf, hcallers⟩ := List.forall_mem_cons.mp he.frames
      have htick := machine.tick_limits
      dsimp only
      split
      · trivial
      · next i hinstruction =>
        split
        · trivial
        · next machine' hmachine =>
          rw [hmachine] at htick
          have hlimits : machine'.limits = limits := htick.trans he.limits_eq
          rw [hlimits]
          split
          · trivial
          · next request heap' hexecute =>
            have hafter : ∀ a, request.after = some a → P a
                ∧ ∀ b ∈ Activation.ofFrames (.waiting a.frame.resume) callers, P b := by
              intro a ha
              have hstep := Activation.Step.execute hinstruction hexecute ha
              rw [hstep.sameCall.resume]
              exact ⟨hP.step hf hstep, hcallers⟩
            cases request with
            | proceed g => apply has_withFrame_iff.mpr ⟨hlimits, hafter _ rfl⟩
            | finish v => apply finish_keeps hP hlimits hcallers
            | raise g exception =>
                apply raise_keeps hP (has_withFrame_iff.mpr ⟨hlimits, hafter _ rfl⟩)
            | invoke g m args typeArgs resume =>
                apply enter_keeps hP (has_withFrame_iff.mpr ⟨hlimits, hafter _ rfl⟩)
            | prepare g owner rest =>
                apply prepare_keeps hP (has_withFrame_iff.mpr ⟨hlimits, hafter _ rfl⟩)

/-- The programs that a program becomes as it runs. -/
inductive Reaches (session : Session) : Execution → Execution → Prop
  | refl {e : Execution} : Reaches session e e
  | step {e e' e'' : Execution} (hreaches : Reaches session e e')
      (hstep : e'.step session = .running e'') : Reaches session e e''

/-- Whatever state is reached, its frames have the property. -/
theorem Reaches.keeps
    (hP : Activation.Invariant session limits.maxStackDepth P) (hreaches : Reaches session e e')
    (he : e.Has limits P .ready) :
  e'.Has limits P .ready
  := by
  induction hreaches with
  | refl => exact he
  | step _ hstep ih =>
      have hkeeps := step_keeps hP ih
      rw [hstep] at hkeeps
      exact hkeeps

/-- All frames of a program that starts with one method have a property that frames keep. -/
theorem Reaches.keeps_entered
    {start : Execution} (hP : Activation.Invariant session start.machine.limits.maxStackDepth P)
    {m : RealizedMethod} {args : List Value} {typeArgs : List TypeRef} {resume : Resume}
    (hstart : start.frames = []) (henter : start.enter m args typeArgs resume = .running e)
    (hreaches : Reaches session e e') :
  ∀ a ∈ e'.activations, P a
  := by
  have hnone : start.Has start.machine.limits P (.waiting resume) := by
    refine ⟨rfl, ?_⟩
    rw [hstart]
    rintro a ⟨⟩
  have hentered : (start.enter m args typeArgs resume).Keeps start.machine.limits P :=
    enter_keeps hP hnone
  rw [henter] at hentered
  exact (hreaches.keeps hP hentered).frames

/-- Every frame of a running program has come where it is by the steps of an
activation, if that is true of the frames at its start. -/
theorem Reaches.reached
    (hreaches : Reaches session e e')
    (he : ∀ a ∈ e.activations, a.Reached session e.machine.limits.maxStackDepth) :
  ∀ a ∈ e'.activations, a.Reached session e.machine.limits.maxStackDepth
  := by
  apply Has.frames
  apply hreaches.keeps (Activation.reached_invariant _ _)
  exact ⟨rfl, he⟩

end Execution

end ManagedCode
