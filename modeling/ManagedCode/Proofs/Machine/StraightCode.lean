import ManagedCode.Proofs.Machine.ArgumentBinding
import ManagedCode.Proofs.Machine.Budget
import ManagedCode.Proofs.Machine.FieldAccess

/-!
# Straight code

A run that a host starts goes through code without branches and calls one instruction after the
other (`Launch.Passes`), as long as the limits of its machine allow that (`Limits.Allow`).  When it
comes to the return of the method, it has ended (`Launch.Passes.exec_execute`).
-/

namespace ManagedCode

/-- Limits leave room for frames, for values on the stack of a frame, and for instructions. -/
structure Limits.Allow (l : Limits) (frames depth steps : Nat) : Prop where
  frames : frames ≤ l.maxCallDepth
  depth : depth ≤ l.maxStackDepth
  steps : ∀ budget, l.stepBudget = some budget → steps ≤ budget

/-- A run is given more steps than the limits allow. -/
theorem Limits.Allow.lt_fuel
    {l : Limits} {frames depth steps : Nat} (h : l.Allow frames depth steps)
    (hsteps : steps < 0x4000000000000000) :
  steps < l.fuel
  := by
  rw [Limits.fuel]
  split
  · next budget hbudget => exact Nat.lt_succ_of_le (h.steps budget hbudget)
  · exact hsteps

theorem Limits.Allow.mono
    {l : Limits} {frames depth steps depth' steps' : Nat} (h : l.Allow frames depth steps)
    (hdepth : depth' ≤ depth) (hsteps : steps' ≤ steps) :
  l.Allow frames depth' steps'
  :=
  ⟨h.frames, Nat.le_trans hdepth h.depth,
    fun budget hb => Nat.le_trans hsteps (h.steps budget hb)⟩

namespace RealizedMethod

variable {m : RealizedMethod} {body : MethodBody} {typeArgs : List TypeRef}

theorem callableBody_eq
    (hbody : m.body = some body) (habstract : m.isAbstract = false)
    (harity : typeArgs.length = m.genericParams.length) :
  m.callableBody typeArgs = .ok body
  := by
  rw [callableBody, hbody]
  dsimp only
  rw [habstract, if_neg Bool.false_ne_true, if_neg (not_not.mpr harity)]

/-- A method that can be run is not abstract. -/
theorem isAbstract_of_callableBody (h : m.callableBody typeArgs = .ok body) :
  m.isAbstract = false
  := by
  rw [callableBody] at h
  split at h
  · cases h
  · split at h
    · cases h
    · next habstract => exact eq_false_of_ne_true habstract

end RealizedMethod

namespace Launch

/-- The frame of a run before the instruction at a position. -/
def frame (l : Launch) (body : MethodBody) (n : Nat) (stack : List Value) : Frame :=
  { Frame.enter l.method body l.args l.typeArgs .dropResult with stack := stack, ip := n }

/-- A run that has executed as many instructions as stand before a position. -/
def reached (l : Launch) (body : MethodBody) (n : Nat) (host : HostState) (stack : List Value) :
    Execution :=
  { machine := { host.machine with steps := n }
    heap := host.heap
    frames := [l.frame body n stack] }

variable {l : Launch} {body : MethodBody} {session : Session} {n : Nat} {host host' : HostState}
  {stack stack' rest : List Value} {i : Instruction} {v : Value}

/-- A run goes through the first instructions of its body one after the other, with what they
leave. -/
inductive Passes (session : Session) (l : Launch) (body : MethodBody) :
    Nat → HostState → List Value → Prop
  | start : Passes session l body 0 l.host []
  | step {n : Nat} {host host' : HostState} {stack stack' : List Value}
      (h : Passes session l body n host stack)
      (hstep : (l.reached body n host stack).step session
        = .running (l.reached body (n + 1) host' stack')) :
      Passes session l body (n + 1) host' stack'

/-- A method is entered. -/
theorem entered_eq
    (hbody : l.method.callableBody l.typeArgs = .ok body)
    (hdepth : 0 < l.host.machine.limits.maxCallDepth) :
  l.entered = .running (l.reached body 0 l.host [])
  := by
  rw [entered, Execution.enter]
  rw [hbody]
  exact if_pos hdepth

theorem Passes.limits (h : Passes session l body n host stack) :
  host.machine.limits = l.host.machine.limits
  := by
  induction h with
  | start => rfl
  | @step n host host' stack stack' h hstep ih =>
      have hlimits := (l.reached body n host stack).step_limits session
      rw [hstep] at hlimits
      exact hlimits.trans ih

theorem Passes.run (h : Passes session l body n host stack) (fuel : Nat) :
  (l.reached body 0 l.host []).run session (n + fuel)
    = (l.reached body n host stack).run session fuel
  := by
  induction h generalizing fuel with
  | start => rw [Nat.zero_add]
  | step h hstep ih =>
      rw [Nat.succ_add_eq_add_succ]
      rw [ih, Execution.run_of_running hstep]

/-- A run that ends after straight code. -/
theorem Passes.status
    {machine : Machine} {heap : Heap} {result : Except Fault Value}
    (h : Passes session l body n host stack) (hbody : l.method.callableBody l.typeArgs = .ok body)
    (hdepth : 0 < l.host.machine.limits.maxCallDepth) (hfuel : n < l.host.machine.limits.fuel)
    (hstep : (l.reached body n host stack).step session = .finished machine heap result) :
  l.status session = .finished machine heap result
  := by
  obtain ⟨more, hmore⟩ := Nat.exists_eq_add_of_lt hfuel
  rw [Launch.status, entered_eq hbody hdepth]
  dsimp only
  rw [hmore, Nat.add_assoc, h.run, Execution.run_of_finished hstep]

/-- The next instruction of straight code is executed. -/
theorem reached_executes
    (hi : body.instructions[n]? = some i)
    (hbudget : ∀ budget, host.machine.limits.stepBudget = some budget → n + 1 ≤ budget) :
  (l.reached body n host stack).Executes i (l.frame body n stack) []
    { host.machine with steps := n + 1 }
  :=
  { frames := rfl
    instruction := hi
    budget := Machine.tick_of_le hbudget }

/-- Straight code executes its next instruction. -/
theorem Passes.executes
    {frames depth steps : Nat} (h : Passes session l body n host stack)
    (hallow : l.host.machine.limits.Allow frames depth steps) (hn : n < steps)
    (hi : body.instructions[n]? = some i) :
  (l.reached body n host stack).Executes i (l.frame body n stack) []
    { host.machine with steps := n + 1 }
  :=
  reached_executes hi fun budget hb => Nat.le_trans hn (hallow.steps budget (h.limits ▸ hb))

/-- Straight code goes on by an instruction of the frame. -/
theorem Passes.proceed
    {frames depth steps : Nat} {heap : Heap} (h : Passes session l body n host stack)
    (hallow : l.host.machine.limits.Allow frames depth steps) (hn : n < steps)
    (hi : body.instructions[n]? = some i)
    (hexecute : Surroundings.execute ⟨session, host.machine.limits.maxStackDepth⟩ host.heap
      (l.frame body n stack) i = .ok (.proceed (l.frame body (n + 1) stack'), heap)) :
  Passes session l body (n + 1) { host with heap := heap } stack'
  := by
  apply h.step
  rw [(h.executes hallow hn hi).step_eq hexecute]
  rfl

/-- Straight code goes on by an instruction that pushes a value. -/
theorem Passes.push
    {frames depth steps : Nat} (h : Passes session l body n host stack)
    (hallow : l.host.machine.limits.Allow frames depth steps) (hn : n < steps)
    (hi : body.instructions[n]? = some i) (hroom : stack.length < depth)
    (hexecute : ∀ s : Surroundings, s.execute host.heap (l.frame body n stack) i
      = (s.push (l.frame body n stack) v).map fun f => (.proceed f, host.heap)) :
  Passes session l body (n + 1) host (v.toStack :: stack)
  := by
  apply h.proceed hallow hn hi
  have hdepth : stack.length < host.machine.limits.maxStackDepth := by
    rw [h.limits]
    exact Nat.lt_of_lt_of_le hroom hallow.depth
  have hpush : Frame.push host.machine.limits.maxStackDepth (l.frame body n stack) v
      = .ok (l.frame body n (v.toStack :: stack)) := if_pos hdepth
  rw [hexecute, Surroundings.push]
  dsimp only
  rw [hpush]
  rfl

/-- Straight code goes on by the load of an argument. -/
theorem Passes.loadArg
    {frames depth steps : Nat} {k : Fin 4} (h : Passes session l body n host stack)
    (hallow : l.host.machine.limits.Allow frames depth steps) (hn : n < steps)
    (hi : body.instructions[n]? = some ⟨.ldargImplied k, .none⟩) (hroom : stack.length < depth)
    (harg : l.args[k.val]? = some v) :
  Passes session l body (n + 1) host (v.toStack :: stack)
  := by
  apply h.push hallow hn hi hroom
  intro s
  have hframe : (l.frame body n stack).args[k.val]? = some v := harg
  have hvalue : (l.frame body n stack).argAt k = .ok v := by
    rw [Frame.argAt]
    rw [hframe]
  simp only [Surroundings.execute, hvalue, bind, Except.bind]

/-- Straight code goes on by the load of a field. -/
theorem Passes.loadField
    {frames depth steps k : Nat} {r : ObjectRef} {f : RealizedField}
    (h : Passes session l body n host (.object r :: rest))
    (hallow : l.host.machine.limits.Allow frames depth steps) (hn : n < steps)
    (hi : body.instructions[n]? = some ⟨.ldfld, .field f.handle⟩) (hroom : rest.length < depth)
    (hfield : session.fieldAt f.handle = .ok f) (hslot : f.slot = .instance k)
    (hvalue : host.heap.slot? r k = some v) :
  Passes session l body (n + 1) host (v.toStack :: rest)
  := by
  apply h.proceed hallow hn hi
  have hdepth : rest.length < host.machine.limits.maxStackDepth := by
    rw [h.limits]
    exact Nat.lt_of_lt_of_le hroom hallow.depth
  have hload := Surroundings.loadField_eq (g := l.frame body n (.object r :: rest)) _ hfield hslot
    hvalue (i := ⟨.ldfld, .field f.handle⟩) rfl rfl hdepth
  simp only [Surroundings.execute, hload, Except.map]
  rfl

/-- Straight code goes on by a store into a field, or the run fails. -/
theorem Passes.storeField
    {frames depth steps k : Nat} {r : ObjectRef} {f : RealizedField}
    (h : Passes session l body n host (v :: .object r :: rest))
    (hallow : l.host.machine.limits.Allow frames depth steps) (hn : n < steps)
    (hi : body.instructions[n]? = some ⟨.stfld, .field f.handle⟩)
    (hfield : session.fieldAt f.handle = .ok f) (hslot : f.slot = .instance k) :
  (∃ heap, host.heap.setSlot r k v = .ok heap
    ∧ Passes session l body (n + 1) { host with heap := heap } rest)
  ∨ ∃ machine heap error, (l.reached body n host (v :: .object r :: rest)).step session
    = .finished machine heap (.error error)
  := by
  cases hset : host.heap.setSlot r k v with
  | ok heap =>
      left
      refine ⟨heap, rfl, h.proceed hallow hn hi ?_⟩
      have hstore := Surroundings.storeField_eq (g := l.frame body n (v :: .object r :: rest))
        host.machine.limits.maxStackDepth hfield hslot hset (i := ⟨.stfld, .field f.handle⟩) rfl rfl
      simp only [Surroundings.execute, hstore, Except.map]
      rfl
  | error reason =>
      right
      have hstore := Surroundings.storeField_error (g := l.frame body n (v :: .object r :: rest))
        host.machine.limits.maxStackDepth hfield hslot hset (i := ⟨.stfld, .field f.handle⟩) rfl rfl
      have hexecute : Surroundings.execute ⟨session, host.machine.limits.maxStackDepth⟩ host.heap
          (l.frame body n (v :: .object r :: rest)) ⟨.stfld, .field f.handle⟩
          = .error (.runtimeError reason) := by
        simp only [Surroundings.execute, hstore, Except.map]
      exact ⟨_, _, _, (h.executes hallow hn hi).step_error hexecute⟩

/-- A method returns what is on top of the stack. -/
theorem step_ret
    (hi : body.instructions[n]? = some ⟨.ret, .none⟩)
    (hbudget : ∀ budget, host.machine.limits.stepBudget = some budget → n + 1 ≤ budget)
    (hreturns : l.method.returnType ≠ .void) :
  (l.reached body n host (v :: rest)).step session
    = .finished { host.machine with steps := n + 1 } host.heap (.ok v)
  := by
  have hexecutes : (l.reached body n host (v :: rest)).Executes _ _ _ _ :=
    reached_executes hi hbudget
  have hreturn : Surroundings.execute ⟨session, host.machine.limits.maxStackDepth⟩ host.heap
      (l.frame body n (v :: rest)) ⟨.ret, .none⟩ = .ok (.finish v, host.heap) := by
    have hanswer : Surroundings.returnValue (l.frame body n (v :: rest)) = .ok (.finish v) :=
      if_neg hreturns
    simp only [Surroundings.execute, hanswer, Except.map]
  rw [hexecutes.step_request hreturn]
  rfl

/-- A method without a value returns. -/
theorem step_ret_void
    (hi : body.instructions[n]? = some ⟨.ret, .none⟩)
    (hbudget : ∀ budget, host.machine.limits.stepBudget = some budget → n + 1 ≤ budget)
    (hreturns : l.method.returnType = .void) :
  (l.reached body n host stack).step session
    = .finished { host.machine with steps := n + 1 } host.heap (.ok .null)
  := by
  have hexecutes : (l.reached body n host stack).Executes _ _ _ _ := reached_executes hi hbudget
  have hreturn : Surroundings.execute ⟨session, host.machine.limits.maxStackDepth⟩ host.heap
      (l.frame body n stack) ⟨.ret, .none⟩ = .ok (.finish .null, host.heap) := by
    have hanswer : Surroundings.returnValue (l.frame body n stack) = .ok (.finish .null) :=
      if_pos hreturns
    simp only [Surroundings.execute, hanswer, Except.map]
  rw [hexecutes.step_request hreturn]
  rfl

/-- A run that ends after straight code gives the host what it has come to. -/
theorem Passes.exec_execute
    {machine : Machine} {heap : Heap} {result : Except Fault Value} {depth steps : Nat}
    (h : Passes session l body n host stack)
    (hbody : l.method.callableBody l.typeArgs = .ok body)
    (hallow : l.host.machine.limits.Allow 1 depth steps) (hn : n < steps)
    (hsteps : steps < 0x4000000000000000)
    (hstep : (l.reached body n host stack).step session = .finished machine heap result) :
  (Host.execute session l.method l.args l.typeArgs).exec l.host
    = ((Status.finished machine heap result).answer, ⟨machine, heap⟩)
  := by
  have hfuel : n < l.host.machine.limits.fuel := Nat.lt_trans hn (hallow.lt_fuel hsteps)
  have hstatus : Launch.status session ⟨l.host, l.method, l.args, l.typeArgs⟩ = _ :=
    h.status hbody hallow.frames hfuel hstep
  rw [Host.exec_execute, hbody]
  dsimp only
  rw [hstatus]
  rfl

end Launch

/-! ## Invocations -/

/-- What the host and its runs do leaves the limits of the machine. -/
theorem HostState.Course.limits_eq
    {session : Session} {host host' : HostState} {launches : List Launch}
    (hcourse : Course session host launches host') :
  host'.machine.limits = host.machine.limits
  := by
  induction hcourse with
  | refl => rfl
  | change hchange _ ih => exact ih.trans (Prod.mk.inj hchange.spent).2
  | run l _ ih => exact ih.trans (l.status_limits _)

/-- A call of the host leaves the limits of its machine. -/
theorem HostCall.limits_eq (session : Session) (call : HostCall) (host : HostState) :
  ((call.perform session).exec host).2.machine.limits = host.machine.limits
  := (call.runs session host).course.limits_eq

namespace Host

/-- An answer that is not a fault leaves the host as it is. -/
theorem exec_lift_ok
    {α : Type} {r : Except Fault α} {a : α} {host host' : HostState}
    (h : (lift r).exec host = (.ok a, host')) :
  r = .ok a ∧ host' = host
  := by
  cases r with
  | ok a' =>
      obtain ⟨⟨⟩, ⟨⟩⟩ := Prod.mk.inj h
      exact ⟨rfl, rfl⟩
  | error error =>
      cases (Prod.mk.inj h).1

variable {session : Session} {m : RealizedMethod} {receiver : Option Value}
  {args bound : List Value} {typeArgs : List TypeRef} {host host' : HostState}

/-- What a method is called with: its arguments with the receiver in front.  The static side of
the type of a static method is set up before. -/
def arguments (session : Session) (m : RealizedMethod) (receiver : Option Value)
    (args : List Value) : Host (List Value) := do
  let bound ← lift (m.bindArguments args)
  if m.isStatic then do
    initializeType session m.handle.owner
    pure bound
  else lift (withReceiver m receiver bound)

theorem callResolved_eq (session : Session) (m : RealizedMethod) (receiver : Option Value)
    (args : List Value) (typeArgs : List TypeRef) :
  callResolved session m receiver args typeArgs
    = (do
      let bound ← arguments session m receiver args
      let result ← execute session m bound typeArgs
      return result.coerceTo (m.returnType.substitute m.genericParams typeArgs))
  := by
  rw [callResolved, arguments]
  rw [bind_assoc]
  apply bind_congr
  intro bound
  cases m.isStatic with
  | true => simp only [if_true, bind_assoc]
  | false => rfl

/-- How the arguments of a call have been made. -/
theorem exists_of_arguments
    (h : (arguments session m receiver args).exec host = (.ok bound, host')) :
  ∃ given, m.bindArguments args = .ok given
    ∧ ((m.isStatic = true ∧ bound = given
        ∧ (initializeType session m.handle.owner).exec host = (.ok (), host'))
      ∨ (m.isStatic = false ∧ withReceiver m receiver given = .ok bound ∧ host' = host))
  := by
  rw [arguments] at h
  obtain ⟨given, host₁, hlifted, hrest⟩ := exists_of_exec_bind_ok h
  obtain ⟨hgiven, rfl⟩ := exec_lift_ok hlifted
  refine ⟨given, hgiven, ?_⟩
  cases hstatic : m.isStatic with
  | true =>
      rw [hstatic, if_pos rfl] at hrest
      obtain ⟨_, host₂, hsetup, hlast⟩ := exists_of_exec_bind_ok hrest
      obtain ⟨⟨⟩, ⟨⟩⟩ := Prod.mk.inj hlast
      exact .inl ⟨rfl, rfl, hsetup⟩
  | false =>
      rw [hstatic, if_neg Bool.false_ne_true] at hrest
      exact .inr ⟨rfl, exec_lift_ok hrest⟩

/-- Making the arguments leaves the limits of the machine. -/
theorem arguments_limits
    (h : (arguments session m receiver args).exec host = (.ok bound, host')) :
  host'.machine.limits = host.machine.limits
  := by
  obtain ⟨given, -, ⟨-, -, hsetup⟩ | ⟨-, -, rfl⟩⟩ := exists_of_arguments h
  · have hcourse := (runs_initializeType session m.handle.owner host).course
    rw [hsetup] at hcourse
    exact hcourse.limits_eq
  · rfl

theorem exec_arguments_object
    {o : ObjectRef} (hstatic : m.isStatic = false) (hbound : m.bindArguments args = .ok bound) :
  (arguments session m (some (.object o)) args).exec host = (.ok (.object o :: bound), host)
  := by
  rw [arguments, hbound, hstatic]
  rfl

theorem exec_arguments_static
    (hstatic : m.isStatic = true) (hbound : m.bindArguments args = .ok bound)
    (hsetup : (initializeType session m.handle.owner).exec host = (.ok (), host')) :
  (arguments session m receiver args).exec host = (.ok bound, host')
  := by
  rw [arguments, hbound, hstatic]
  change (initializeType session m.handle.owner >>= fun _ => pure bound).exec host = _
  rw [exec_bind, hsetup]
  rfl

variable {v u : Value} {host₀ : HostState}

/-- A method that has been run is not abstract. -/
theorem isAbstract_of_execute
    (h : (execute session m args typeArgs).exec host = (.ok v, host')) :
  m.isAbstract = false
  := by
  rw [exec_execute] at h
  cases hbody : m.callableBody typeArgs with
  | error error =>
      rw [hbody] at h
      cases (Prod.mk.inj h).1
  | ok body => exact RealizedMethod.isAbstract_of_callableBody hbody

/-- A call that succeeds has made its arguments and run the method. -/
theorem exists_of_callResolved
    (h : (callResolved session m receiver args typeArgs).exec host = (.ok v, host')) :
  ∃ bound host₀ u, (arguments session m receiver args).exec host = (.ok bound, host₀)
    ∧ (execute session m bound typeArgs).exec host₀ = (.ok u, host')
  := by
  rw [callResolved_eq] at h
  obtain ⟨bound, host₀, hbound, h⟩ := exists_of_exec_bind_ok h
  obtain ⟨u, host₁, hexecute, h⟩ := exists_of_exec_bind_ok h
  cases h
  exact ⟨bound, host₀, u, hbound, hexecute⟩

/-- The answer of a call is that of the run, in the form of the return type. -/
theorem exec_callResolved_of_execute
    (hbound : (arguments session m receiver args).exec host = (.ok bound, host₀))
    (hexecute : (execute session m bound typeArgs).exec host₀ = (.ok u, host')) :
  (callResolved session m receiver args typeArgs).exec host
    = (.ok (u.coerceTo (m.returnType.substitute m.genericParams typeArgs)), host')
  := by
  rw [callResolved_eq, exec_bind, hbound]
  dsimp only
  rw [exec_bind, hexecute]
  rfl

end Host

namespace HostCall

/-- A call that the host makes for its effect. -/
def writes : HostCall → Bool
  | writeProperty .. | writeStaticProperty .. | writeField .. | writeStaticField .. => true
  | _ => false

variable {session : Session} {m : RealizedMethod} {receiver : Option Value} {args : List Value}
  {typeArgs : List TypeRef} {call : HostCall}

theorem callVirtual_of_invoke
    {v : Value} {method : MethodRef} {given : List Value}
    (hplan : plan.dispatched session v method given = .ok (.invoke m receiver args typeArgs)) :
  Host.callVirtual session v method given = Host.callResolved session m receiver args typeArgs
  := by
  obtain ⟨declared, hdeclared, hplan⟩ := exists_of_bind_ok hplan
  obtain ⟨target, htarget, hplan⟩ := exists_of_bind_ok hplan
  cases hplan
  rw [Host.callVirtual, hdeclared]
  simp only [Host.lift, pure_bind, htarget]

/-- A call that comes down to the call of a method answers what this one answers. -/
theorem perform_of_invoke
    (hplan : call.plan session = .ok (.invoke m receiver args typeArgs))
    (hwrites : call.writes = false) :
  call.perform session = Host.callResolved session m receiver args typeArgs
  := by
  cases call with
  | create id args =>
      obtain ⟨t, ht, hplan⟩ := exists_of_bind_ok hplan
      split at hplan <;> cases hplan
  | createWith constructor args =>
      obtain ⟨t, ht, hplan⟩ := exists_of_bind_ok hplan
      obtain ⟨m', hm', hplan⟩ := exists_of_bind_ok hplan
      cases hplan
  | call method receiver args =>
      obtain ⟨m', hm', hplan⟩ := exists_of_bind_ok hplan
      cases hplan
      rw [perform, Host.call, hm']
      rfl
  | callVirtual v method args => exact callVirtual_of_invoke hplan
  | callByName v name args =>
      obtain ⟨r, hr, hplan⟩ := exists_of_bind_ok hplan
      obtain ⟨declared, hdeclared, hplan⟩ := exists_of_bind_ok hplan
      obtain ⟨target, htarget, hplan⟩ := exists_of_bind_ok hplan
      cases hplan
      rw [perform, Host.callByName, hr]
      simp only [Host.lift, pure_bind, hdeclared, htarget]
  | callStatic id name args =>
      obtain ⟨t, ht, hplan⟩ := exists_of_bind_ok hplan
      rw [perform, Host.callStatic, ht]
      simp only [Host.lift, pure_bind]
      cases hfound : t.methods.find? fun m =>
          m.name == name && m.isStatic && !m.kind.isConstructor && m.takes args with
      | none =>
          simp only [hfound] at hplan
          cases hplan
      | some found =>
          simp only [hfound] at hplan ⊢
          cases hplan
          rfl
  | callGenericMethod method typeArgs receiver args =>
      obtain ⟨declared, hdeclared, hplan⟩ := exists_of_bind_ok hplan
      rw [perform]
      cases receiver with
      | none =>
          have htarget : Host.genericTarget session method none = .ok declared := by
            rw [Host.genericTarget, hdeclared]
            rfl
          cases hplan
          exact Host.callGenericMethod_eq htarget _ _
      | some v =>
          have htarget : Host.genericTarget session method (some v)
              = if declared.isStatic then pure declared else session.dispatch v declared := by
            rw [Host.genericTarget, hdeclared]
            rfl
          dsimp only at hplan
          split at hplan
          · next hstatic =>
            cases hplan
            exact Host.callGenericMethod_eq (htarget.trans (if_pos hstatic)) _ _
          · next hstatic =>
            obtain ⟨target, hdispatch, hplan⟩ := exists_of_bind_ok hplan
            cases hplan
            exact Host.callGenericMethod_eq ((htarget.trans (if_neg hstatic)).trans hdispatch) _ _
  | readProperty v name =>
      obtain ⟨r, hr, hplan⟩ := exists_of_bind_ok hplan
      obtain ⟨getter, hgetter, hplan⟩ := exists_of_bind_ok hplan
      rw [perform, Host.readProperty, hr]
      simp only [Host.lift, pure_bind, hgetter]
      exact callVirtual_of_invoke hplan
  | readStaticProperty id name =>
      obtain ⟨getter, hgetter, hplan⟩ := exists_of_bind_ok hplan
      obtain ⟨m', hm', hplan⟩ := exists_of_bind_ok hplan
      cases hplan
      rw [perform, Host.readStaticProperty, hgetter]
      simp only [Host.lift, pure_bind, Host.call, hm']
  | readField v name => cases hplan
  | readStaticField id name =>
      obtain ⟨field, hfield, hplan⟩ := exists_of_bind_ok hplan
      split at hplan <;> cases hplan
  | writeProperty v name value => cases hwrites
  | writeStaticProperty id name value => cases hwrites
  | writeField v name value => cases hwrites
  | writeStaticField id name value => cases hwrites

end HostCall

end ManagedCode
