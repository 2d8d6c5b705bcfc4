import ManagedCode.Proofs.Machine.Requests

/-!
# Limits of a running program

A value gets onto an evaluation stack through a push, which checks the limit of the stack, or in
the place of values that have been taken from it.  A frame becomes active through the entry of a
method, which checks the call depth.  A program that has been entered is therefore within the
limits of its machine at every moment (`Execution.Reaches.within`).
-/

namespace ManagedCode

/-- Nothing is said about the answer of a computation. -/
theorem Yields.any {α : Type} (x : Except Fault α) : Yields True (fun _ => True) x := by
  cases x with
  | ok a => trivial
  | error error => cases error <;> trivial

/-! ## Evaluation stacks -/

/-- The opcodes that may leave more values than they take. -/
def Opcode.Grows : Opcode → Prop
  | dup | ldnull | ldcI4MinusOne | ldcI4Implied _ | ldcI4 _ | ldcI8 | ldcR4 | ldcR8 | ldstr
  | ldargImplied _ | ldarg _ | ldlocImplied _ | ldloc _ | ldsfld => True
  | _ => False

theorem Opcode.pushes_le_pops
    {op : Opcode} {pops pushes : Nat} (hop : ¬ op.Grows)
    (heffect : op.stackEffect = .fixed pops pushes) :
  pushes ≤ pops
  := by
  cases op with
  | dup | ldnull | ldcI4MinusOne | ldcI4Implied _ | ldcI4 _ | ldcI8 | ldcR4 | ldcR8 | ldstr
  | ldargImplied _ | ldarg _ | ldlocImplied _ | ldloc _ | ldsfld => exact absurd trivial hop
  | call | callvirt | newobj | ret | leave _ | endfinally => cases heffect
  | _ =>
      cases heffect
      omega

/-- The stack of a frame holds at most `limit` values. -/
def Frame.Fits (limit : Nat) (f : Frame) : Prop :=
  f.stack.length ≤ limit

namespace Frame

variable {limit pops pushes : Nat} {f g : Frame}

theorem Rewrites.fits (hg : f.Rewrites pops pushes g) (hle : pushes ≤ pops) (hf : f.Fits limit) :
  g.Fits limit
  := by
  have hlength := hg.length
  have henough := hg.enough
  rw [Fits] at *
  omega

theorem push_fits (f : Frame) (limit : Nat) (v : Value) :
  Yields True (·.Fits limit) (f.push limit v)
  := by
  rw [push]
  split
  · next hroom => exact hroom
  · trivial

theorem continueTo_stack (f : Frame) (target : Nat) (finallies : List Nat) :
  (f.continueTo target finallies).stack = f.stack
  := by
  cases finallies <;> rfl

/-- A handler starts with nothing on the stack, or with the exception. -/
theorem enterHandler_fits (session : Session) (limit : Nat) (f : Frame) (exception : Value)
    (regions : List Region) (index : Nat) :
  Yields True (fun answer => ∀ g ∈ answer, g.Fits limit)
    (enterHandler session limit f exception index regions)
  := by
  induction regions generalizing index with
  | nil =>
      rintro g ⟨⟩
  | cons r rest ih =>
      rw [enterHandler]
      split
      · split
        · rintro g ⟨⟩
          apply Nat.zero_le
        · split
          · apply Yields.bind (push_fits _ limit exception)
            rintro h hfits g ⟨⟩
            exact hfits
          · exact ih (index + 1)
      · exact ih (index + 1)

end Frame

namespace Surroundings

variable {s : Surroundings} {heap heap' : Heap} {f : Frame} {i : Instruction}
  {request : Request} {a : Activation}

theorem push_fits (s : Surroundings) (f : Frame) (v : Value) :
  Yields True (·.Fits s.stackLimit) (s.push f v)
  := Yields.bind (f.push_fits s.stackLimit v) fun _ hg => hg

/-- What the frame that asks for something is left with. -/
def AfterFits (limit : Nat) (answer : Request × Heap) : Prop :=
  ∀ a ∈ answer.1.after, a.frame.Fits limit

/-- An instruction that may put more on the stack than it takes ends in a push. -/
theorem execute_fits_of_grows (hgrows : i.opcode.Grows) (hf : f.Fits s.stackLimit) :
  Yields True (AfterFits s.stackLimit) (s.execute heap f i)
  := by
  have hproceed : ∀ {x : Except Fault Frame}, Yields True (·.Fits s.stackLimit) x →
      Yields True (AfterFits s.stackLimit) (x.map fun g => (Request.proceed g, heap)) := by
    intro x hx
    apply hx.map
    rintro g hg a ⟨⟩
    exact hg
  have hpush : ∀ {α : Type} (x : Except Fault α) (v : α → Value),
      Yields True (·.Fits s.stackLimit) (x >>= fun r => s.push f (v r)) :=
    fun x v => Yields.bind (Yields.any x) fun r _ => s.push_fits f (v r)
  rw [execute]
  cases hop : i.opcode with
  | dup => exact hproceed (hpush f.pop Prod.fst)
  | ldnull | ldcI4MinusOne | ldcI4Implied _ | ldcI4 _ | ldcI8 | ldcR4 | ldcR8 | ldstr =>
      rw [loadConstant_eq]
      exact hproceed (hpush i.constant id)
  | ldargImplied n => exact hproceed (hpush (f.argAt n) id)
  | ldarg w =>
      exact hproceed (Yields.bind (Yields.any i.argIndex) fun n _ => hpush (f.argAt n) id)
  | ldlocImplied n => exact hproceed (hpush (f.localAt n) id)
  | ldloc w =>
      exact hproceed (Yields.bind (Yields.any i.localIndex) fun n _ => hpush (f.localAt n) id)
  | ldsfld =>
      apply Yields.map (P := fun r => AfterFits s.stackLimit (r, heap)) _ fun _ hr => hr
      apply Yields.bind (Yields.any i.fieldRef)
      intro handle _
      apply Yields.bind (Yields.any (s.session.fieldAt handle))
      intro field _
      split
      · rintro a ⟨⟩
        exact hf
      · apply Yields.bind (s.push_fits f _)
        rintro g hg a ⟨⟩
        exact hg
      · trivial
  | _ =>
      rw [hop] at hgrows
      exact False.elim hgrows

theorem Outcome.fits
    (houtcome : s.Outcome f i request) (hshrinks : ¬ i.opcode.Grows) {limit : Nat}
    (hf : f.Fits limit) (ha : request.after = some a) :
  a.frame.Fits limit
  := by
  have hempty : ∀ g : Frame, g.stack = [] → g.Fits limit := by
    intro g hg
    rw [Frame.Fits, hg]
    apply Nat.zero_le
  cases houtcome with
  | next _ heffect hg _ =>
      cases ha
      exact hg.fits (Opcode.pushes_le_pops hshrinks heffect) hf
  | branch _ _ hg _ | throw _ hg _ _ | invoke _ _ _ hg _ _ _ | callStatic _ _ _ hg _ _
  | construct _ _ _ _ hg _ _ | storeStatic _ hg _ _ =>
      cases ha
      exact hg.fits (Nat.zero_le _) hf
  | leave _ _ _ | endLeave _ _ =>
      cases ha
      apply hempty
      apply Frame.continueTo_stack
  | endUnwind _ _ =>
      cases ha
      exact hempty _ rfl
  | rethrow _ _ | loadStatic _ =>
      cases ha
      exact hf
  | finish _ _ => cases ha

theorem execute_fits
    (hexecute : s.execute heap f i = .ok (request, heap')) (hf : f.Fits s.stackLimit)
    (ha : request.after = some a) :
  a.frame.Fits s.stackLimit
  := by
  by_cases hgrows : i.opcode.Grows
  · exact (execute_fits_of_grows hgrows hf).of_ok hexecute a ha
  · exact (execute_outcome hexecute).fits hgrows hf ha

end Surroundings

/-- No step of a frame puts more on its stack than the limit allows. -/
theorem Activation.fits_invariant (session : Session) (limit : Nat) :
  Invariant session limit fun a => a.frame.Fits limit
  := by
  constructor
  · intro m body args typeArgs resume _
    apply Nat.zero_le
  · intro a b ha hstep
    cases hstep with
    | execute _ hexecute hafter => exact Surroundings.execute_fits hexecute ha hafter
    | handled hraise => exact (Frame.enterHandler_fits _ _ _ _ _ _).of_ok hraise _ rfl
    | @result f g v hpush | @object f g v hpush | @loaded f g _ _ v hpush =>
        have hg : g.Fits limit := (f.push_fits limit v).of_ok hpush
        exact hg
    | passed | dropped | stored | called | constructed => exact ha

theorem Activation.forall_frame_iff {P : Frame → Prop} {phase : Phase} {frames : List Frame} :
  (∀ a ∈ ofFrames phase frames, P a.frame) ↔ ∀ f ∈ frames, P f
  := by
  induction frames generalizing phase with
  | nil => simp [ofFrames]
  | cons f callers ih => simp only [ofFrames, List.forall_mem_cons, ih]

/-! ## Active frames -/

namespace Execution

variable {session : Session} {limits : Limits} {e e' : Execution}

theorem step_shallow (hdepth : e.frames.length ≤ e.machine.limits.maxCallDepth) :
  (e.step session).Shallow e.machine.limits.maxCallDepth
  := by
  obtain ⟨machine, heap, frames⟩ := e
  rw [step]
  cases frames with
  | nil => trivial
  | cons f callers =>
      have htick := machine.tick_limits
      dsimp only
      split
      · trivial
      · split
        · trivial
        · next machine' hmachine =>
          rw [hmachine] at htick
          dsimp only at htick hdepth
          rw [← htick] at hdepth ⊢
          split
          · trivial
          · exact (serve_sequel session _ callers _).shallow hdepth

/-- A running program is within the limits of its machine. -/
structure Within (limits : Limits) (e : Execution) : Prop where
  limits_eq : e.machine.limits = limits
  frames_le : e.frames.length ≤ limits.maxCallDepth
  stack_le : ∀ f ∈ e.frames, f.stack.length ≤ limits.maxStackDepth

theorem Within.step (he : e.Within limits) (hstep : e.step session = .running e') :
  e'.Within limits
  := by
  have hkeeps : (e.step session).Keeps limits fun a => a.frame.Fits limits.maxStackDepth := by
    apply step_keeps (Activation.fits_invariant _ _)
    exact ⟨he.limits_eq, Activation.forall_frame_iff.mpr he.stack_le⟩
  have hshallow : (e.step session).Shallow limits.maxCallDepth := by
    have hdepth := he.frames_le
    rw [← he.limits_eq] at hdepth ⊢
    exact step_shallow hdepth
  rw [hstep] at hkeeps hshallow
  exact ⟨hkeeps.limits_eq, hshallow, Activation.forall_frame_iff.mp hkeeps.frames⟩

theorem Reaches.within (hreaches : Reaches session e e') (he : e.Within limits) :
  e'.Within limits
  := by
  induction hreaches with
  | refl => exact he
  | step _ hstep ih => exact ih.step hstep

/-- A program that has been entered from no other one is within the limits. -/
theorem within_of_enter
    {m : RealizedMethod} {args : List Value} {typeArgs : List TypeRef} {resume : Resume}
    (hframes : e.frames = []) (hentered : e.enter m args typeArgs resume = .running e') :
  e'.Within e.machine.limits
  := by
  rw [enter] at hentered
  split at hentered
  · cases hentered
  · split at hentered
    · next hroom =>
      cases hentered
      refine ⟨rfl, hroom, ?_⟩
      rw [hframes]
      intro f hf
      cases List.mem_singleton.mp hf
      apply Nat.zero_le
    · cases hentered

end Execution

end ManagedCode
