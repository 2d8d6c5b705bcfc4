import ManagedCode.Proofs.Emitter.Checks
import ManagedCode.Proofs.Machine.Endings

/-!
# Control stays in a body

A frame of a checked body is at an instruction of the body, wherever its steps lead: to the
next instruction, to a label, to a handler, or to the target of a leave that has waited for its
finally handlers.  Control is therefore never lost, in any run of a body that comes from calls on
an emitter (`Emitter.control_stays_inside`).
-/

namespace ManagedCode

/-! ## Frames inside their bodies -/

namespace Activation

/-- Where a frame of the body may be in a phase.  A frame that waits goes on to the next
instruction. -/
def InBody (body : MethodBody) (f : Frame) : Phase → Prop
  | .ready | .raising _ => f.ip < body.instructions.size
  | .waiting _ => f.ip + 1 < body.instructions.size

/-- A frame is at an instruction of the body, and so are the targets of its pending leaves. -/
structure Inside (body : MethodBody) (a : Activation) : Prop where
  ip : InBody body a.frame a.phase
  pending : ∀ region target remaining, .leave region target remaining ∈ a.frame.pending →
    target < body.instructions.size

section

variable {session : Session} {limit : Nat} {body : MethodBody} {f g : Frame} {i : Instruction}
  {a b : Activation}

theorem Inside.lt (ha : a.Inside body) : a.frame.ip < body.instructions.size := by
  have hip := ha.ip
  cases hphase : a.phase with
  | ready | raising exception =>
      rw [hphase] at hip
      exact hip
  | waiting resume =>
      rw [hphase] at hip
      exact Nat.lt_of_succ_lt hip

/-- On the way to a target, control goes through finally handlers of the body. -/
theorem Inside.continueTo
    (hbody : body.Checked) (hf : f.body = body) {target : Nat} (remaining : List Nat)
    (htarget : target < body.instructions.size)
    (hpending : ∀ region target remaining, .leave region target remaining ∈ f.pending →
      target < body.instructions.size) :
  Inside body ⟨f.continueTo target remaining, .ready⟩
  := by
  cases remaining with
  | nil => exact ⟨htarget, hpending⟩
  | cons region remaining =>
      constructor
      · change ((f.body.regions[region]?).map (·.handlerStart)).getD target < _
        rw [hf]
        cases hr : body.regions[region]? with
        | none => exact htarget
        | some r => exact hbody.handlers r (List.mem_of_getElem? hr)
      · intro region' target' remaining' hmem
        rcases List.mem_cons.mp hmem with heq | hmem
        · cases heq
          exact htarget
        · exact hpending _ _ _ hmem

/-- Only from a terminator does control not go on to the next instruction. -/
theorem next_lt (hbody : body.Checked) (hinstruction : body.instructions[f.ip]? = some i)
    (hflow : i.opcode.flow = .next ∨ i.opcode.flow = .condBranch ∨ i.opcode.flow = .switch) :
  f.ip + 1 < body.instructions.size
  := by
  apply hbody.ends f.ip i hinstruction
  rcases hflow with hflow | hflow | hflow <;> rw [Opcode.isTerminator, hflow]

/-- An instruction of a checked body leaves its frame inside the body. -/
theorem Inside.execute {request : Request}
    (hbody : body.Checked) (ha : Inside body ⟨f, .ready⟩) (hf : f.body = body)
    (hinstruction : body.instructions[f.ip]? = some i)
    (houtcome : Surroundings.Outcome ⟨session, limit⟩ f i request)
    (hafter : request.after = some b) :
  b.Inside body
  := by
  have hi := Array.mem_of_getElem? hinstruction
  have htarget : ∀ {l target}, l ∈ i.operand.labels → f.body.target? l = some target →
      target < body.instructions.size := by
    intro l target hl ht
    obtain ⟨ip, hip, hresolves⟩ := hbody.labels i hi l hl
    rw [hf, hresolves] at ht
    cases ht
    exact hip
  cases houtcome with
  | next hflow _ hg hip =>
      obtain rfl := Option.some.inj hafter
      refine ⟨?_, ?_⟩
      · rw [InBody, hip]
        exact next_lt hbody hinstruction (.inl hflow)
      · rw [hg.pending]
        exact ha.pending
  | branch hflow _ hg hip =>
      obtain rfl := Option.some.inj hafter
      refine ⟨?_, ?_⟩
      · rw [InBody]
        rcases hip with ⟨l, hl, ht⟩ | ⟨hcond, hnext⟩
        · exact htarget hl ht
        · rw [hnext]
          apply next_lt hbody hinstruction
          rcases hflow with hflow | hflow | hflow
          · cases hcond hflow
          · exact .inr (.inl hflow)
          · exact .inr (.inr hflow)
      · rw [hg.pending]
        exact ha.pending
  | @leave w l target _ hlabel ht =>
      obtain rfl := Option.some.inj hafter
      have hl : l ∈ i.operand.labels := by
        rw [hlabel]
        apply List.mem_singleton_self
      rw [Frame.leave]
      apply Inside.continueTo hbody _ _ (htarget hl ht)
      · exact ha.pending
      · exact hf
  | @endLeave region target remaining pending _ hpending =>
      obtain rfl := Option.some.inj hafter
      have hold := ha.pending
      dsimp only at hold
      rw [hpending] at hold
      apply Inside.continueTo hbody _ remaining (hold _ _ _ List.mem_cons_self)
      · intro region target remaining hmem
        exact hold _ _ _ (List.mem_cons_of_mem _ hmem)
      · exact hf
  | @endUnwind region exception pending _ hpending =>
      obtain rfl := Option.some.inj hafter
      refine ⟨ha.ip, ?_⟩
      intro region target remaining hmem
      apply ha.pending region target remaining
      dsimp only
      rw [hpending]
      exact List.mem_cons_of_mem _ hmem
  | throw _ hg hip _ =>
      obtain rfl := Option.some.inj hafter
      refine ⟨?_, ?_⟩
      · rw [InBody, hip]
        exact ha.ip
      · rw [hg.pending]
        exact ha.pending
  | rethrow _ _ =>
      obtain rfl := Option.some.inj hafter
      exact ⟨ha.ip, ha.pending⟩
  | finish _ _ => cases hafter
  | invoke hop _ _ hg hip _ _ | callStatic hop _ _ hg hip _ =>
      obtain rfl := Option.some.inj hafter
      refine ⟨?_, ?_⟩
      · rw [InBody, hip]
        apply next_lt hbody hinstruction
        rcases hop with hop | hop <;> rw [hop] <;> decide
      · rw [hg.pending]
        exact ha.pending
  | construct hop _ _ _ hg hip _ | storeStatic hop hg hip _ =>
      obtain rfl := Option.some.inj hafter
      refine ⟨?_, ?_⟩
      · rw [InBody, hip]
        apply next_lt hbody hinstruction
        rw [hop]
        decide
      · rw [hg.pending]
        exact ha.pending
  | loadStatic hop =>
      obtain rfl := Option.some.inj hafter
      refine ⟨?_, ha.pending⟩
      apply next_lt hbody hinstruction
      rw [hop]
      decide

/-- A handler of a checked body starts inside the body. -/
theorem Inside.handled {exception : Value}
    (hbody : body.Checked) (ha : Inside body ⟨f, .raising exception⟩) (hf : f.body = body)
    (hraise : f.raise session limit exception = .ok (some g)) :
  Inside body ⟨g, .ready⟩
  := by
  obtain ⟨index, r, hr, -, hcatches⟩ := Frame.raise_ok hraise
  rw [hf] at hr
  have hstart := hbody.handlers r (List.mem_of_getElem? hr)
  cases hcatches with
  | finalizing _ =>
      refine ⟨hstart, ?_⟩
      intro region target remaining hmem
      rcases List.mem_cons.mp hmem with heq | hmem
      · cases heq
      · exact ha.pending _ _ _ (List.mem_filter.mp hmem).1
  | catching _ =>
      refine ⟨hstart, ?_⟩
      intro region target remaining hmem
      exact ha.pending _ _ _ (List.mem_filter.mp hmem).1

/-- A frame that waits goes on inside the body with the value that it is given. -/
theorem Inside.pushed {resume : Resume} {v : Value}
    (ha : Inside body ⟨f, .waiting resume⟩) (hpush : f.push limit v = .ok g) :
  Inside body ⟨g.advance, .ready⟩
  := by
  obtain ⟨hg, hip⟩ := Frame.push_ok hpush
  have hnext : g.advance.ip = f.ip + 1 := congrArg (· + 1) hip
  have hpending : g.advance.pending = f.pending := hg.pending
  refine ⟨?_, ?_⟩
  · rw [InBody, hnext]
    exact ha.ip
  · dsimp only
    rw [hpending]
    exact ha.pending

theorem Inside.step
    (hbody : body.Checked) (ha : a.Inside body) (hf : a.frame.body = body)
    (hstep : Step session limit a b) :
  b.Inside body
  := by
  cases hstep with
  | execute hinstruction hexecute hafter =>
      rw [hf] at hinstruction
      exact ha.execute hbody hf hinstruction (Surroundings.execute_outcome hexecute) hafter
  | passed => exact ⟨ha.lt, ha.pending⟩
  | handled hraise => exact ha.handled hbody hf hraise
  | result hpush | object hpush | loaded hpush => exact ha.pushed hpush
  | dropped | stored | called | constructed => exact ⟨ha.ip, ha.pending⟩

theorem inside_invariant (session : Session) (limit : Nat) (hbody : body.Checked) :
  Invariant session limit fun a => a.frame.body = body → a.Inside body
  := by
  constructor
  · rintro m _ args typeArgs resume - rfl
    refine ⟨hbody.nonempty, ?_⟩
    rintro region target remaining ⟨⟩
  · intro a b ha hstep hb
    have hf : a.frame.body = body := hstep.sameCall.body.symm.trans hb
    exact (ha hf).step hbody hf hstep

end

end Activation

/-! ## Runs of a body -/

namespace Execution

variable {session : Session} {body : MethodBody}

/-- An innermost frame inside a checked body does not lose control. -/
theorem step_not_derails {e : Execution} {f : Frame} {callers : List Frame}
    (hbody : body.Checked) (hframes : e.frames = f :: callers) (hf : f.body = body)
    (hip : f.ip < body.instructions.size) :
  (e.step session).Ends fun error => ¬ error.Derails
  := by
  have hordinary : ∀ error : Fault, error.Ordinary → ¬ error.Derails :=
    fun error => Fault.Ordinary.not_derails
  have hinstruction : f.body.instructions[f.ip]? = some body.instructions[f.ip] := by
    rw [hf]
    exact Array.getElem?_eq_getElem hip
  have hi := Array.getElem_mem hip
  have hexecute : ∀ limit, Faults (fun error => ¬ error.Derails)
      (Surroundings.execute ⟨session, limit⟩ e.heap f body.instructions[f.ip]) := by
    intro limit
    apply Surroundings.execute_faults hordinary
    · intro hmisfit
      rw [hbody.fits _ hi] at hmisfit
      cases hmisfit
    · intro l hl
      obtain ⟨target, -, htarget⟩ := hbody.labels _ hi l hl
      rw [Frame.target, hf, htarget]
      trivial
  apply step_ends hframes (fun error h => hordinary error h.ordinary) (fun _ => id) fun _ => id
  · intro hended
    rw [hinstruction] at hended
    cases hended
  · intro i limit hfetched
    obtain rfl := Option.some.inj (hinstruction.symm.trans hfetched)
    exact hexecute limit

end Execution

/-- Whatever calls a body comes from, none of them has recorded a fault, its labels stand for
its instructions, and in every run control stays inside the body: its frames are at its
instructions, and it does not end by losing control. -/
theorem Emitter.control_stays_inside
    (method : String) (returnsValue : Bool) (calls : List Call)
    {effectOf : Opcode → MethodRef → Option CallEffect} {body : MethodBody}
    (hok : ((run { method := method, returnsValue := returnsValue } calls).sealBodyWith effectOf).1
      = .ok body) :
  (∀ earlier, earlier <+: calls →
      (run { method := method, returnsValue := returnsValue } earlier).errors = [])
  ∧ (∀ i ∈ body.instructions, ∀ l ∈ i.operand.labels,
      ∃ ip < body.instructions.size, body.target? l = some ip)
  ∧ ∀ (session : Session) (start e₀ e₁ : Execution) (m : RealizedMethod) (args : List Value)
      (typeArgs : List TypeRef) (resume : Resume),
      start.frames = [] → start.enter m args typeArgs resume = .running e₀ →
      Execution.Reaches session e₀ e₁ →
      (∀ f ∈ e₁.frames, f.body = body → f.ip < body.instructions.size)
      ∧ ∀ f callers, e₁.frames = f :: callers → f.body = body →
        (e₁.step session).Ends fun error => ¬ error.Derails
  := by
  have hrecords := fun calls =>
    (Steps.run { method := method, returnsValue := returnsValue } calls).records
  obtain ⟨-, hcheck, -⟩ := sealBodyWith_ok hok
  have hchecked : body.Checked := by
    apply ((Built.start method returnsValue).run calls).checked _ hok
    apply (hrecords calls).fitting
    intro _ i hi
    cases Array.not_mem_empty i hi
  refine ⟨?_, hchecked.labels, ?_⟩
  · rintro earlier ⟨later, rfl⟩
    have hlater := (Steps.run (run { method := method, returnsValue := returnsValue } earlier)
      later).records.errors
    rw [← run_append, errors_of_check hcheck] at hlater
    exact List.prefix_nil.mp hlater
  · intro session start e₀ e₁ m args typeArgs resume hstart henter hreaches
    have hframes : ∀ a ∈ e₁.activations, a.frame.body = body → a.Inside body :=
      hreaches.keeps_entered (Activation.inside_invariant session _ hchecked) hstart henter
    have hinside : ∀ f ∈ e₁.frames, f.body = body → f.ip < body.instructions.size := by
      intro f hf hbody
      obtain ⟨phase, hmem⟩ := Activation.exists_of_mem hf
      exact (hframes _ hmem hbody).lt
    refine ⟨hinside, ?_⟩
    intro f callers hcons hbody
    apply Execution.step_not_derails hchecked hcons hbody
    apply hinside f _ hbody
    rw [hcons]
    exact List.mem_cons_self

/-- A block with a finally handler, and the return behind it. -/
def Emitter.guarded : List Emitter.Call :=
  [.beginBlock, .emitWith .nop .none, .beginFinally, .endBlock, .emitWith .ret .none]

def guardedBody : MethodBody :=
  { instructions := #[
      ⟨.nop, .none⟩, ⟨.leave .short, .label ⟨0⟩⟩, ⟨.endfinally, .none⟩, ⟨.ret, .none⟩]
    labels := #[some 3]
    locals := #[]
    regions := [⟨0, 2, 2, 3, .finalizing⟩]
    maxStack := 0 }

theorem Emitter.sealed_guarded :
  ((run { method := "M" } guarded).sealBodyWith fun _ _ => none).1 = .ok guardedBody
  := rfl

def guardedMethod : RealizedMethod :=
  { (default : RealizedMethod) with
    name := "M"
    returnType := .void
    body := some guardedBody }

/-- A program that runs the method and has come to an instruction. -/
def guardedProgram (steps ip : Nat) (pending : List AfterFinally) : Execution :=
  { machine := { steps := steps }
    heap := default
    frames := [
      { Frame.enter guardedMethod guardedBody [] [] .dropResult with
        ip := ip
        pending := pending }] }

/-- The leave waits for the finally handler. -/
theorem guardedProgram_reaches (session : Session) :
  Execution.Reaches session (guardedProgram 0 0 []) (guardedProgram 2 2 [.leave 0 3 []])
  := by
  have hnop : Execution.Reaches session (guardedProgram 0 0 []) (guardedProgram 1 1 []) :=
    .step .refl rfl
  apply hnop.step rfl

/-- In the finally handler, control is inside the body and is not lost by the next step. -/
theorem guardedProgram_stays_inside :
  Execution.Reaches default (guardedProgram 0 0 []) (guardedProgram 2 2 [.leave 0 3 []])
    ∧ (∀ f ∈ (guardedProgram 2 2 [.leave 0 3 []]).frames, f.body = guardedBody → f.ip < 4)
    ∧ ((guardedProgram 2 2 [.leave 0 3 []]).step default).Ends fun error => ¬ error.Derails
  := by
  have hreaches := guardedProgram_reaches default
  obtain ⟨-, -, hruns⟩ := Emitter.control_stays_inside "M" false Emitter.guarded
    Emitter.sealed_guarded
  obtain ⟨hinside, hkept⟩ := hruns default ⟨{}, default, []⟩ _ _ guardedMethod [] [] .dropResult rfl
    rfl hreaches
  exact ⟨hreaches, hinside, hkept _ _ rfl rfl⟩

end ManagedCode
