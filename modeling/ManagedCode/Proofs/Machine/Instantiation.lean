import ManagedCode.Proofs.Machine.HostCalls
import ManagedCode.Proofs.Machine.Resolution

/-!
# Copies of generic methods

A copy of a generic method has type arguments in the place of the generic parameters, wherever its
body mentions them (`RealizedMethod.Copies`).  A call of the method with the type arguments and a
call of the copy without any go through the same states: their frames are the same once they are
resolved (`Execution.run_congr`).
-/

namespace ManagedCode

/-! ## Programs with resolved frames -/

def Execution.resolved (e : Execution) : Execution :=
  { e with frames := e.frames.map Frame.resolved }

/-- What has become of a program, with its frames resolved.  Programs that are the same then have
the same machines and heaps, and frames with the same arguments, locals and stacks at the same
instructions. -/
def Status.resolved : Status → Status
  | .running e => .running e.resolved
  | .finished machine heap result => .finished machine heap result

theorem Frame.map_resolved_resolved (frames : List Frame) :
  (frames.map resolved).map resolved = frames.map resolved
  := by
  rw [List.map_map]
  exact List.map_congr_left fun f _ => f.resolved_resolved

namespace Frame

theorem unwind_resolved (session : Session) (limit : Nat) (exception : Value)
    (frames : List Frame) :
  unwind session limit exception (frames.map resolved)
    = List.map resolved <$> unwind session limit exception frames
  := by
  induction frames with
  | nil => rfl
  | cons f callers ih =>
      rw [List.map_cons, unwind, unwind, f.raise_resolved]
      apply bind_map_congr
      intro answer
      cases answer with
      | some g => rfl
      | none => exact ih

end Frame

namespace Execution

variable (session : Session) (e : Execution) (f : Frame) (callers : List Frame)

theorem withFrame_resolved :
  (e.resolved.withFrame f.resolved (callers.map Frame.resolved)).resolved
    = (e.withFrame f callers).resolved
  := by
  simp only [withFrame, resolved, List.map_cons, f.resolved_resolved, Frame.map_resolved_resolved]

theorem enter_resolved (m : RealizedMethod) (args : List Value) (typeArgs : List TypeRef)
    (resume : Resume) :
  (e.resolved.enter m args typeArgs resume).resolved = (e.enter m args typeArgs resume).resolved
  := by
  have hlength : e.resolved.frames.length = e.frames.length := List.length_map _
  have hmachine : e.resolved.machine = e.machine := rfl
  rw [enter, enter, hlength, hmachine]
  split
  · rfl
  · split
    · simp only [Status.resolved, resolved, List.map_cons, Frame.map_resolved_resolved]
    · rfl

theorem complete_resolved (v : Value) :
  (e.resolved.complete f.resolved (callers.map Frame.resolved) v).resolved
    = (e.complete f callers v).resolved
  := by
  have hmachine : e.resolved.machine = e.machine := rfl
  rw [complete, complete, hmachine, f.push_resolved]
  cases f.push e.machine.limits.maxStackDepth v with
  | ok g => exact congrArg Status.running (e.withFrame_resolved g.advance callers)
  | error error => rfl

theorem perform_resolved (rest : Deferred) :
  (e.resolved.perform f.resolved (callers.map Frame.resolved) rest).resolved
    = (e.perform f callers rest).resolved
  := by
  have hmachine : e.resolved.machine = e.machine := rfl
  cases rest with
  | load owner slot =>
      rw [perform, perform, hmachine]
      split
      · apply complete_resolved
      · rfl
  | store owner slot v =>
      rw [perform, perform, hmachine]
      split
      · next machine _ =>
        exact congrArg Status.running
          (withFrame_resolved { e with machine := machine } f.advance callers)
      · rfl
  | call m args typeArgs => exact (e.withFrame f callers).enter_resolved m args typeArgs _
  | construct t m args typeArgs =>
      exact enter_resolved ({ e with heap := _ }.withFrame f callers) m _ typeArgs _

theorem prepare_resolved (owner : TypeId) (rest : Deferred) :
  (e.resolved.prepare session f.resolved (callers.map Frame.resolved) owner rest).resolved
    = (e.prepare session f callers owner rest).resolved
  := by
  have hmachine : e.resolved.machine = e.machine := rfl
  rw [prepare, prepare, hmachine]
  split
  · rfl
  · next machine _ => exact perform_resolved { e with machine := machine } f callers rest
  · next m machine _ =>
    exact enter_resolved ({ e with machine := machine }.withFrame f callers) m [] [] _

theorem finish_resolved (v : Value) :
  (e.resolved.finish f.resolved (callers.map Frame.resolved) v).resolved
    = (e.finish f callers v).resolved
  := by
  have hresume : f.resolved.resume = f.resume := rfl
  cases callers with
  | nil => rfl
  | cons caller callers =>
      rw [List.map_cons, finish, finish, hresume]
      split
      · apply complete_resolved
      · exact congrArg Status.running (e.withFrame_resolved caller.advance callers)
      · apply complete_resolved
      · apply perform_resolved

theorem raise_resolved (exception : Value) :
  (e.resolved.raise session f.resolved (callers.map Frame.resolved) exception).resolved
    = (e.raise session f callers exception).resolved
  := by
  have hmachine : e.resolved.machine = e.machine := rfl
  rw [raise, raise, hmachine, ← List.map_cons, Frame.unwind_resolved]
  cases Frame.unwind session e.machine.limits.maxStackDepth exception (f :: callers) with
  | error error => rfl
  | ok frames =>
      cases frames with
      | nil => rfl
      | cons g callers => exact congrArg Status.running (e.withFrame_resolved g callers)

theorem serve_resolved (request : Request) :
  (e.resolved.serve session (callers.map Frame.resolved) request.resolved).resolved
    = (e.serve session callers request).resolved
  := by
  cases request with
  | proceed g => exact congrArg Status.running (e.withFrame_resolved g callers)
  | finish v =>
      obtain ⟨machine, heap, frames⟩ := e
      cases frames with
      | nil => rfl
      | cons f rest => exact finish_resolved { machine, heap, frames := f :: rest } f callers v
  | raise g exception => exact e.raise_resolved session g callers exception
  | invoke g m args typeArgs resume =>
      exact (e.withFrame g callers).enter_resolved m args typeArgs resume
  | prepare g owner rest => exact e.prepare_resolved session g callers owner rest

theorem step_resolved : (e.resolved.step session).resolved = (e.step session).resolved := by
  obtain ⟨machine, heap, frames⟩ := e
  cases frames with
  | nil => rfl
  | cons f callers =>
      have hinstruction : f.resolved.body.instructions[f.ip]?
          = (f.body.instructions[f.ip]?).map f.resolveIn := Array.getElem?_map
      have hip : f.resolved.ip = f.ip := rfl
      have hframes : (Execution.mk machine heap (f :: callers)).resolved
          = { machine, heap, frames := f.resolved :: callers.map Frame.resolved } := rfl
      rw [hframes, step, step]
      dsimp only
      rw [hip, hinstruction]
      cases f.body.instructions[f.ip]? with
      | none => rfl
      | some i =>
          rcases machine.tick with ⟨error | ⟨⟩, machine⟩
          · rfl
          · dsimp only [Option.map_some]
            rw [Surroundings.execute_resolved]
            cases Surroundings.execute ⟨session, machine.limits.maxStackDepth⟩ heap f i with
            | error error => rfl
            | ok answer =>
                exact serve_resolved session
                  { machine := machine, heap := answer.2, frames := f :: callers } callers answer.1

/-- Programs with the same resolved frames run alike. -/
theorem run_congr {e e' : Execution} (he : e.resolved = e'.resolved) (fuel : Nat) :
  (e.run session fuel).resolved = (e'.run session fuel).resolved
  := by
  induction fuel generalizing e e' with
  | zero => exact congrArg Status.running he
  | succ fuel ih =>
      have hstep : (e.step session).resolved = (e'.step session).resolved :=
        calc (e.step session).resolved
          _ = (e.resolved.step session).resolved := (step_resolved session e).symm
          _ = (e'.resolved.step session).resolved := by rw [he]
          _ = (e'.step session).resolved := step_resolved session e'
      rw [run, run]
      cases h : e.step session with
      | running e₁ =>
          rw [h] at hstep
          cases h' : e'.step session with
          | running e₂ =>
              rw [h'] at hstep
              exact ih (Status.running.inj hstep)
          | finished machine heap result =>
              rw [h'] at hstep
              cases hstep
      | finished machine heap result =>
          rw [h] at hstep
          cases h' : e'.step session with
          | running e₂ =>
              rw [h'] at hstep
              cases hstep
          | finished machine' heap' result' =>
              rw [h'] at hstep
              exact hstep

end Execution

theorem Status.answer_resolved (status : Status) : status.resolved.answer = status.answer := by
  cases status <;> rfl

theorem Status.host_resolved (status : Status) : status.resolved.host = status.host := by
  cases status <;> rfl

theorem Status.run_congr
    {status status' : Status} (h : status.resolved = status'.resolved) (session : Session)
    (fuel : Nat) :
  (status.run session fuel).resolved = (status'.run session fuel).resolved
  := by
  cases status with
  | running e =>
      cases status' with
      | running e' => exact Execution.run_congr session (Status.running.inj h) fuel
      | finished machine heap result => cases h
  | finished machine heap result =>
      cases status' with
      | running e' => cases h
      | finished machine' heap' result' => exact h

/-! ## Type arguments in the place of generic parameters -/

/-- What a type becomes with type arguments.  A generic parameter gives way to the argument at the
first position of its name, also as the type of elements; one that is not listed stays, and so does
a type that mentions none. -/
inductive TypeRef.Becomes (params : List String) (typeArgs : List TypeRef) :
    TypeRef → TypeRef → Prop
  | argument {name : String} {k : Nat} {t : TypeRef} (hname : params[k]? = some name)
      (hfirst : ∀ j < k, params[j]? ≠ some name) (ht : typeArgs[k]? = some t) :
      Becomes params typeArgs (.generic name) t
  | unlisted {name : String} (h : name ∉ params) :
      Becomes params typeArgs (.generic name) (.generic name)
  | array {t t' : TypeRef} (h : Becomes params typeArgs t t') :
      Becomes params typeArgs (.array t) (.array t')
  | closed {t : TypeRef} (h : t.hasGeneric = false) : Becomes params typeArgs t t

/-- What an operand becomes: its type does, or the type arguments that it gives to a method. -/
inductive Operand.Becomes (params : List String) (typeArgs : List TypeRef) :
    Operand → Operand → Prop
  | type {t t' : TypeRef} (h : TypeRef.Becomes params typeArgs t t') :
      Becomes params typeArgs (.type t) (.type t')
  | genericMethod (m : MethodRef) {types types' : List TypeRef}
      (h : List.Forall₂ (TypeRef.Becomes params typeArgs) types types') :
      Becomes params typeArgs (.genericMethod m types) (.genericMethod m types')
  | other {o : Operand} (htype : ∀ t, o ≠ .type t) (hmethod : ∀ m types, o ≠ .genericMethod m types) :
      Becomes params typeArgs o o

/-- What an instruction becomes. -/
structure Instruction.Becomes (params : List String) (typeArgs : List TypeRef)
    (i i' : Instruction) : Prop where
  opcode : i'.opcode = i.opcode
  operand : Operand.Becomes params typeArgs i.operand i'.operand

/-- What a handler becomes: the type of the exceptions that it catches does. -/
inductive HandlerKind.Becomes (params : List String) (typeArgs : List TypeRef) :
    HandlerKind → HandlerKind → Prop
  | catching {t t' : TypeRef} (h : TypeRef.Becomes params typeArgs t t') :
      Becomes params typeArgs (.catching t) (.catching t')
  | finalizing : Becomes params typeArgs .finalizing .finalizing

/-- What a region becomes. -/
structure Region.Becomes (params : List String) (typeArgs : List TypeRef) (r r' : Region) :
    Prop where
  kind : HandlerKind.Becomes params typeArgs r.kind r'.kind
  rest : { r' with kind := r.kind } = r

/-- What a body becomes: the types of its locals, the operands of its instructions and the handlers
of its regions do. -/
structure MethodBody.Becomes (params : List String) (typeArgs : List TypeRef)
    (body body' : MethodBody) : Prop where
  instructions : List.Forall₂ (Instruction.Becomes params typeArgs) body.instructions.toList
    body'.instructions.toList
  locals : List.Forall₂ (TypeRef.Becomes params typeArgs) body.locals.toList body'.locals.toList
  regions : List.Forall₂ (Region.Becomes params typeArgs) body.regions body'.regions
  rest : { body' with
    instructions := body.instructions
    locals := body.locals
    regions := body.regions } = body

section

variable {params : List String} {typeArgs : List TypeRef}
  (hlength : typeArgs.length = params.length)

/-- A relation that is that of a function holds of lists of the same length, element by element. -/
theorem forall₂_iff_map
    {α β : Type} {R : α → β → Prop} {f : α → β} (h : ∀ a b, R a b ↔ b = f a) (as : List α)
    (bs : List β) :
  List.Forall₂ R as bs ↔ bs = as.map f
  := by
  induction as generalizing bs with
  | nil => exact List.forall₂_nil_left_iff
  | cons a as ih =>
      rw [List.forall₂_cons_left_iff, List.map_cons]
      simp only [h, ih]
      constructor
      · rintro ⟨b, bs', rfl, rfl, rfl⟩
        rfl
      · intro hbs
        exact ⟨_, _, rfl, rfl, hbs⟩

include hlength

/-- With an argument for each parameter, types become what substitution makes of them. -/
theorem TypeRef.becomes_iff (t t' : TypeRef) :
  Becomes params typeArgs t t' ↔ t' = t.substitute params typeArgs
  := by
  constructor
  · intro h
    induction h with
    | @argument name k t hname hfirst ht =>
        have hindex : params.findIdx? (· == name) = some k := by
          obtain ⟨hk, rfl⟩ := List.getElem?_eq_some_iff.mp hname
          rw [List.findIdx?_eq_some_iff_getElem]
          refine ⟨hk, beq_self_eq_true _, fun j hj => ?_⟩
          intro hsame
          apply hfirst j hj
          rw [List.getElem?_eq_getElem (Nat.lt_trans hj hk), beq_iff_eq.mp hsame]
        rw [substitute, argumentFor, hindex, Option.bind_some, ht, Option.getD_some]
    | @unlisted name h =>
        have hindex : params.findIdx? (· == name) = none := by
          rw [List.findIdx?_eq_none_iff]
          intro x hx
          exact beq_false_of_ne (ne_of_mem_of_not_mem hx h)
        rw [substitute, argumentFor, hindex]
        rfl
    | array h ih => rw [substitute, ih]
    | closed h => exact (substitute_of_not_hasGeneric h params typeArgs).symm
  · rintro rfl
    induction t with
    | generic name =>
        rw [substitute, argumentFor]
        cases hindex : params.findIdx? (· == name) with
        | none =>
            apply Becomes.unlisted
            intro hmem
            simpa using List.findIdx?_eq_none_iff.mp hindex name hmem
        | some k =>
            obtain ⟨hk, hname, hfirst⟩ := List.findIdx?_eq_some_iff_getElem.mp hindex
            have hk' : k < typeArgs.length := hlength ▸ hk
            have harg : typeArgs[k]? = some typeArgs[k] := List.getElem?_eq_getElem hk'
            rw [Option.bind_some, harg, Option.getD_some]
            refine .argument ?_ (fun j hj hsame => hfirst j hj ?_) harg
            · rw [List.getElem?_eq_getElem hk, beq_iff_eq.mp hname]
            · rw [List.getElem?_eq_getElem (Nat.lt_trans hj hk)] at hsame
              exact beq_iff_eq.mpr (Option.some.inj hsame)
    | array element ih => exact ih.array
    | _ => exact .closed rfl

theorem Operand.becomes_iff (o o' : Operand) :
  Becomes params typeArgs o o' ↔ o' = o.substitute params typeArgs
  := by
  have htypes := forall₂_iff_map (TypeRef.becomes_iff hlength)
  constructor
  · intro h
    cases h with
    | type h => exact congrArg type ((TypeRef.becomes_iff hlength _ _).mp h)
    | genericMethod m h => exact congrArg (genericMethod m) ((htypes _ _).mp h)
    | other htype hmethod =>
        cases o with
        | type t => cases htype t rfl
        | genericMethod m types => cases hmethod m types rfl
        | _ => rfl
  · rintro rfl
    cases o with
    | type t => exact .type ((TypeRef.becomes_iff hlength _ _).mpr rfl)
    | genericMethod m types => exact .genericMethod m ((htypes _ _).mpr rfl)
    | _ => exact .other (fun _ => Operand.noConfusion) (fun _ _ => Operand.noConfusion)

theorem Instruction.becomes_iff (i i' : Instruction) :
  Becomes params typeArgs i i' ↔ i' = i.substitute params typeArgs
  := by
  obtain ⟨opcode, operand⟩ := i
  obtain ⟨opcode', operand'⟩ := i'
  constructor
  · rintro ⟨rfl, h⟩
    exact congrArg _ ((Operand.becomes_iff hlength _ _).mp h)
  · intro h
    obtain ⟨rfl, rfl⟩ := Instruction.mk.inj h
    exact ⟨rfl, (Operand.becomes_iff hlength _ _).mpr rfl⟩

theorem Region.becomes_iff (r r' : Region) :
  Becomes params typeArgs r r' ↔ r' = r.substitute params typeArgs
  := by
  obtain ⟨tryStart, tryEnd, handlerStart, handlerEnd, kind⟩ := r
  constructor
  · rintro ⟨hkind, hrest⟩
    obtain ⟨tryStart', tryEnd', handlerStart', handlerEnd', kind'⟩ := r'
    cases hrest
    cases hkind with
    | catching h =>
        obtain rfl := (TypeRef.becomes_iff hlength _ _).mp h
        rfl
    | finalizing => rfl
  · rintro rfl
    cases kind with
    | catching t => exact ⟨.catching ((TypeRef.becomes_iff hlength _ _).mpr rfl), rfl⟩
    | finalizing => exact ⟨.finalizing, rfl⟩

theorem MethodBody.becomes_iff (body body' : MethodBody) :
  Becomes params typeArgs body body' ↔ body' = body.substitute params typeArgs
  := by
  have hinstructions := forall₂_iff_map (Instruction.becomes_iff hlength)
  have htypes := forall₂_iff_map (TypeRef.becomes_iff hlength)
  have hregions := forall₂_iff_map (Region.becomes_iff hlength)
  obtain ⟨⟨instructions⟩, labels, ⟨locals⟩, regions, maxStack⟩ := body
  constructor
  · rintro ⟨hi, hl, hr, hrest⟩
    obtain ⟨⟨instructions'⟩, labels', ⟨locals'⟩, regions', maxStack'⟩ := body'
    obtain rfl : instructions' = instructions.map _ := (hinstructions _ _).mp hi
    obtain rfl : locals' = locals.map _ := (htypes _ _).mp hl
    obtain rfl : regions' = regions.map _ := (hregions _ _).mp hr
    cases hrest
    simp [substitute]
  · rintro rfl
    refine ⟨(hinstructions _ _).mpr ?_, (htypes _ _).mpr ?_, (hregions _ _).mpr rfl, rfl⟩
    all_goals simp [substitute]

end

/-! ## Copies -/

namespace RealizedMethod

/-- A method without generic parameters is a copy of a generic one for some type arguments: its
body is what that of the generic one becomes, and the type that it returns may be as well. -/
structure Copies (copy m : RealizedMethod) (typeArgs : List TypeRef) : Prop where
  name : copy.name = m.name
  genericParams : copy.genericParams = []
  isAbstract : copy.isAbstract = m.isAbstract
  returns : copy.returnType = m.returnType
    ∨ TypeRef.Becomes m.genericParams typeArgs m.returnType copy.returnType
  body : Option.Rel (MethodBody.Becomes m.genericParams typeArgs) m.body copy.body

/-- The copy of a generic method for some type arguments, which stand in its body in place of the
generic parameters. -/
def instantiate (m : RealizedMethod) (typeArgs : List TypeRef) : RealizedMethod :=
  { m with
    genericParams := []
    body := m.body.map (·.substitute m.genericParams typeArgs) }

/-- The copy with the type arguments in its signature as well. -/
def monomorphic (m : RealizedMethod) (typeArgs : List TypeRef) : RealizedMethod :=
  { m.instantiate typeArgs with
    params := m.params.map fun p => { p with type := p.type.substitute m.genericParams typeArgs }
    returnType := m.returnType.substitute m.genericParams typeArgs }

/-- A method runs as another one does with type arguments. -/
structure Mirrors (copy m : RealizedMethod) (typeArgs : List TypeRef) : Prop where
  name : copy.name = m.name
  returns : copy.returnType = .void ↔ m.returnType = .void
  genericParams : copy.genericParams = []
  isAbstract : copy.isAbstract = m.isAbstract
  body : copy.body = m.body.map (·.substitute m.genericParams typeArgs)

/-- A type argument that is not void makes no type void. -/
theorem substitute_eq_void_iff_of_not_mem
    {params : List String} {typeArgs : List TypeRef} (hvoid : .void ∉ typeArgs) (t : TypeRef) :
  t.substitute params typeArgs = .void ↔ t = .void
  := by
  cases t with
  | generic name =>
      refine iff_of_false ?_ TypeRef.noConfusion
      rw [TypeRef.substitute]
      cases hargument : TypeRef.argumentFor params typeArgs name with
      | none => exact TypeRef.noConfusion
      | some t =>
          obtain ⟨k, -, hk⟩ := Option.bind_eq_some_iff.mp hargument
          rintro rfl
          exact hvoid (List.mem_of_getElem? hk)
  | _ => simp [TypeRef.substitute]

theorem rel_becomes_iff
    {params : List String} {typeArgs : List TypeRef} (hlength : typeArgs.length = params.length)
    (body body' : Option MethodBody) :
  Option.Rel (MethodBody.Becomes params typeArgs) body body'
    ↔ body' = body.map (·.substitute params typeArgs)
  := by
  constructor
  · intro h
    cases h with
    | none => rfl
    | some h => exact congrArg some ((MethodBody.becomes_iff hlength _ _).mp h)
  · rintro rfl
    cases body with
    | none => exact .none
    | some body => exact .some ((MethodBody.becomes_iff hlength _ _).mpr rfl)

section

variable {copy m : RealizedMethod} {typeArgs : List TypeRef}
  (hlength : typeArgs.length = m.genericParams.length)

include hlength

theorem copies_instantiate : (m.instantiate typeArgs).Copies m typeArgs :=
  ⟨rfl, rfl, rfl, .inl rfl, (rel_becomes_iff hlength _ _).mpr rfl⟩

theorem copies_monomorphic : (m.monomorphic typeArgs).Copies m typeArgs :=
  ⟨rfl, rfl, rfl, .inr ((TypeRef.becomes_iff hlength _ _).mpr rfl),
    (rel_becomes_iff hlength _ _).mpr rfl⟩

/-- A copy runs as the generic method does, since no type argument is void. -/
theorem Copies.mirrors (h : copy.Copies m typeArgs) (hvoid : .void ∉ typeArgs) :
  copy.Mirrors m typeArgs
  := by
  refine ⟨h.name, ?_, h.genericParams, h.isAbstract, (rel_becomes_iff hlength _ _).mp h.body⟩
  obtain hsame | hbecomes := h.returns
  · rw [hsame]
  · rw [(TypeRef.becomes_iff hlength _ _).mp hbecomes]
    exact substitute_eq_void_iff_of_not_mem hvoid _

end

namespace Mirrors

variable {copy m : RealizedMethod} {typeArgs : List TypeRef}

theorem callableBody
    (hcopy : copy.Mirrors m typeArgs) (hlength : typeArgs.length = m.genericParams.length) :
  copy.callableBody []
    = (·.substitute m.genericParams typeArgs) <$> m.callableBody typeArgs
  := by
  rw [RealizedMethod.callableBody, RealizedMethod.callableBody, hcopy.body, hcopy.name,
    hcopy.isAbstract, hcopy.genericParams]
  cases m.body with
  | none => rfl
  | some body =>
      dsimp only [Option.map_some]
      rw [if_neg (not_not_intro hlength)]
      split
      · rfl
      · rfl

theorem enter_frame (hcopy : copy.Mirrors m typeArgs) (body : MethodBody) (args : List Value)
    (resume : Resume) :
  (Frame.enter copy (body.substitute m.genericParams typeArgs) args [] resume).resolved
    = (Frame.enter m body args typeArgs resume).resolved
  := by
  have hlocals : (body.substitute m.genericParams typeArgs).locals.toList
      = body.locals.toList.map (·.substitute m.genericParams typeArgs) := Array.toList_map
  simp only [Frame.resolved, Frame.enter, hlocals, List.map_map, Function.comp_def,
    TypeRef.substitute_nil, MethodBody.substitute_nil,
    RealizedMethod.seen_eq hcopy.name hcopy.returns]

/-- A call of the copy enters the frame that a call of the method enters. -/
theorem enter
    (hcopy : copy.Mirrors m typeArgs) (hlength : typeArgs.length = m.genericParams.length)
    (e : Execution) (args : List Value) (resume : Resume) :
  (e.enter copy args [] resume).resolved = (e.enter m args typeArgs resume).resolved
  := by
  rw [Execution.enter, Execution.enter, hcopy.callableBody hlength]
  cases m.callableBody typeArgs with
  | error error => rfl
  | ok body =>
      change Status.resolved (if _ then _ else _) = Status.resolved (if _ then _ else _)
      split
      · simp only [Status.resolved, Execution.resolved, List.map_cons, hcopy.enter_frame]
      · rfl

theorem status
    (hcopy : copy.Mirrors m typeArgs) (hlength : typeArgs.length = m.genericParams.length)
    (session : Session) (host : HostState) (args : List Value) :
  (Launch.status session ⟨host, copy, args, []⟩).resolved
    = (Launch.status session ⟨host, m, args, typeArgs⟩).resolved
  := by
  rw [Launch.status_eq_run, Launch.status_eq_run]
  exact Status.run_congr (hcopy.enter hlength _ args .dropResult) session _

/-- The host executes the copy as it executes the method. -/
theorem execute
    (hcopy : copy.Mirrors m typeArgs) (hlength : typeArgs.length = m.genericParams.length)
    (session : Session) (args : List Value) :
  Host.execute session copy args [] = Host.execute session m args typeArgs
  := by
  funext host
  have hstatus := hcopy.status hlength session host args
  have hanswer := congrArg Status.answer hstatus
  have hhost := congrArg Status.host hstatus
  rw [Status.answer_resolved, Status.answer_resolved] at hanswer
  rw [Status.host_resolved, Status.host_resolved] at hhost
  change (Host.execute session copy args []).exec host
    = (Host.execute session m args typeArgs).exec host
  rw [Host.exec_execute, Host.exec_execute, hcopy.callableBody hlength]
  cases m.callableBody typeArgs with
  | error error => rfl
  | ok body => exact Prod.ext hanswer hhost

end Mirrors

/-- A generic method with type arguments is executed as each of its copies for them is without any:
with the same answer, machine and heap, and, from within any program, through the same states.  The
method has such copies, with the arguments in its body alone or in its signature as well. -/
theorem execute_instantiate
    (session : Session) (m : RealizedMethod) (typeArgs : List TypeRef) (args : List Value)
    (hlength : typeArgs.length = m.genericParams.length) (hvoid : .void ∉ typeArgs) :
  (m.instantiate typeArgs).Copies m typeArgs ∧ (m.monomorphic typeArgs).Copies m typeArgs
  ∧ ∀ copy : RealizedMethod, copy.Copies m typeArgs →
    Host.execute session copy args [] = Host.execute session m args typeArgs
    ∧ ∀ (e : Execution) (resume : Resume) (fuel : Nat),
      ((e.enter copy args [] resume).run session fuel).resolved
        = ((e.enter m args typeArgs resume).run session fuel).resolved
  := by
  refine ⟨copies_instantiate hlength, copies_monomorphic hlength, fun copy hcopies => ?_⟩
  have hcopy := hcopies.mirrors hlength hvoid
  refine ⟨hcopy.execute hlength session args, fun e resume fuel => ?_⟩
  exact Status.run_congr (hcopy.enter hlength e args resume) session fuel

/-- A generic method that makes an array of one element and returns the element. -/
def blankMethod : RealizedMethod :=
  { (default : RealizedMethod) with
    name := "Blank"
    attributes := { isStatic := true }
    returnType := .generic "T"
    genericParams := ["T"]
    body := some
      { instructions := #[⟨.ldcI4Implied ⟨1, by decide⟩, .none⟩, ⟨.newarr, .type (.generic "T")⟩,
          ⟨.firstLdcI4, .none⟩, ⟨.ldelem, .type (.generic "T")⟩, ⟨.ret, .none⟩]
        labels := #[]
        locals := #[]
        regions := []
        maxStack := 2 } }

/-- The method for wide integers, written out. -/
def blankInteger : RealizedMethod :=
  { blankMethod with
    returnType := .primitive .i64
    genericParams := []
    body := some
      { instructions := #[⟨.ldcI4Implied ⟨1, by decide⟩, .none⟩, ⟨.newarr, .type (.primitive .i64)⟩,
          ⟨.firstLdcI4, .none⟩, ⟨.ldelem, .type (.primitive .i64)⟩, ⟨.ret, .none⟩]
        labels := #[]
        locals := #[]
        regions := []
        maxStack := 2 } }

/-- It is a copy of the generic method. -/
theorem blankInteger_copies : blankInteger.Copies blankMethod [.primitive .i64] := by
  have hargument : TypeRef.Becomes ["T"] [.primitive .i64] (.generic "T") (.primitive .i64) :=
    .argument (k := 0) rfl (by simp) rfl
  have hplain : ∀ op, Instruction.Becomes ["T"] [.primitive .i64] ⟨op, .none⟩ ⟨op, .none⟩ :=
    fun _ => ⟨rfl, .other (by simp) (by simp)⟩
  refine ⟨rfl, rfl, rfl, .inr hargument, .some ⟨?_, .nil, .nil, rfl⟩⟩
  exact .cons (hplain _) (.cons ⟨rfl, .type hargument⟩ (.cons (hplain _)
    (.cons ⟨rfl, .type hargument⟩ (.cons (hplain _) .nil))))

/-- For wide integers the method answers the number that its copy answers, and for strings it
answers none. -/
theorem blankMethod_execute_instantiate :
  ((Host.execute {} blankMethod [] [.primitive .i64]).exec ⟨{}, {}⟩).1.toOption.bind Value.asI64?
      = some 0
  ∧ ((Host.execute {} blankMethod [] [.string]).exec ⟨{}, {}⟩).1.toOption.map Value.isNull
      = some true
  := by
  obtain ⟨-, -, hintegers⟩ :=
    execute_instantiate {} blankMethod [.primitive .i64] [] rfl (by decide)
  obtain ⟨hstring, -, hstrings⟩ := execute_instantiate {} blankMethod [.string] [] rfl (by decide)
  constructor
  · rw [← (hintegers blankInteger blankInteger_copies).1]
    decide +kernel
  · rw [← (hstrings _ hstring).1]
    decide +kernel

end RealizedMethod

end ManagedCode
