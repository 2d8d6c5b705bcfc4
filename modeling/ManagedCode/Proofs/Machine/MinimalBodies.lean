import ManagedCode.Proofs.Assembly.Bodies
import ManagedCode.Proofs.Machine.StraightCode

/-!
# Minimal bodies

The minimal body of a method that returns a value is the load of a default and a return
(`TypeRef.minimalBody`), and it can always be emitted and sealed (`emitBody_minimal`).  The default
of a generic parameter is in a local, which the frame starts with the type argument.  A run of the
body comes to the value that a slot of the return type starts with, in its stack form, and the host
gets it in the form of the type.

So throughout a session a method that has been given a minimal body returns that value
(`Project.minimal_of_history`).
-/

namespace ManagedCode

variable {ρ : Type}

/-! ## What is emitted -/

namespace ValueForm

/-- The instruction that loads the default of a form.  That of a generic parameter is in the first
local. -/
def defaultLoad : ValueForm → Instruction
  | .bool | .char => ⟨.firstLdcI4, .none⟩
  | .signed .w64 | .unsigned .w64 => ⟨.ldcI8, .i64 0⟩
  | .signed _ | .unsigned _ => ⟨.firstLdcI4, .none⟩
  | .float .single => ⟨.ldcR4, .f32 0.0⟩
  | .float .double => ⟨.ldcR8, .f64 0.0⟩
  | .void | .reference => ⟨.ldnull, .none⟩
  | .generic => ⟨.firstLdloc, .none⟩

end ValueForm

namespace TypeRef

variable {t : TypeRef}

/-- The minimal body of a method that returns a value of a type. -/
def minimalBody (t : TypeRef) : MethodBody :=
  { instructions := #[t.form.defaultLoad, ⟨.ret, .none⟩]
    labels := #[]
    locals := if t.isGeneric then #[t] else #[]
    regions := []
    maxStack := 1 }

theorem form_ne_void (ht : t ≠ .void) : t.form ≠ .void := by
  cases t with
  | void => exact absurd rfl ht
  | primitive p => cases p <;> exact nofun
  | defined handle =>
      obtain ⟨id, kind⟩ := handle
      cases kind with
      | enumType p => cases p <;> exact nofun
      | _ => exact nofun
  | _ => exact nofun

end TypeRef

namespace Emitter

variable {t : TypeRef}

/-- The first load of a default in a method. -/
theorem loadDefault_first (name : String) (ht : t ≠ .void) :
  loadDefault { method := name, returnsValue := true } t
    = .ok (emitWith { method := name, returnsValue := true, locals := t.minimalBody.locals }
        t.form.defaultLoad.opcode t.form.defaultLoad.operand)
  := by
  cases hgeneric : t.isGeneric with
  | true =>
      cases t with
      | generic parameter => rfl
      | _ => cases hgeneric
  | false =>
      have hlocals : t.minimalBody.locals = #[] := if_neg (ne_true_of_eq_false hgeneric)
      have hform := t.form_ne_generic hgeneric
      have hvoid := t.form_ne_void ht
      rw [loadDefault, hlocals]
      generalize t.form = form at hform hvoid
      cases form with
      | void => exact absurd rfl hvoid
      | generic => exact absurd rfl hform
      | signed w => cases w <;> rfl
      | unsigned w => cases w <;> rfl
      | float w => cases w <;> rfl
      | _ => rfl

/-- A load of a default and a return are sealed. -/
theorem sealBodyWith_default
    (name : String) (t : TypeRef) (effectOf : Opcode → MethodRef → Option CallEffect) :
  (((emitWith { method := name, returnsValue := true, locals := t.minimalBody.locals }
    t.form.defaultLoad.opcode t.form.defaultLoad.operand).emit .ret).sealBodyWith effectOf).1
    = .ok t.minimalBody
  := by
  rw [TypeRef.minimalBody]
  dsimp only
  generalize t.form = form
  generalize (if t.isGeneric then #[t] else #[] : Array TypeRef) = locals
  have single (x : Float32) : (((emitWith { method := name, returnsValue := true, locals := locals }
      .ldcR4 (.f32 x)).emit .ret).sealBodyWith effectOf).1
        = .ok ⟨#[⟨.ldcR4, .f32 x⟩, ⟨.ret, .none⟩], #[], locals, [], 1⟩ := rfl
  have double (x : Float) : (((emitWith { method := name, returnsValue := true, locals := locals }
      .ldcR8 (.f64 x)).emit .ret).sealBodyWith effectOf).1
        = .ok ⟨#[⟨.ldcR8, .f64 x⟩, ⟨.ret, .none⟩], #[], locals, [], 1⟩ := rfl
  cases form with
  | signed w => cases w <;> rfl
  | unsigned w => cases w <;> rfl
  | float w =>
      cases w with
      | single => exact single 0.0
      | double => exact double 0.0
  | _ => rfl

end Emitter

/-- A minimal body can be emitted and sealed for every method that returns a value. -/
theorem Build.emitBody_minimal
    {w : Workspace} {m : MethodRef} {method : MethodDecl} (target : Option Overridden)
    (hmethod : methodDecl w m = .ok method) (hkind : method.kind ≠ .constructor)
    (hreturns : method.returnType ≠ .void) :
  emitBody w m target (.minimal : Body ρ) = .ok (method.returnType.minimalBody, [])
  := by
  obtain ⟨d, hd, -⟩ := exists_of_bind_ok hmethod
  have hconstructor : (method.kind == .constructor) = false := beq_false_of_ne hkind
  have hvalue : (method.returnType != .void) = true := bne_iff_ne.mpr hreturns
  rw [emitBody]
  simp only [hd, hmethod, hvalue, bind, Except.bind, Body.emit, BodyContext.emitMinimal,
    hconstructor, Bool.false_eq_true, if_false, hreturns, Emitter.loadDefault_first _ hreturns,
    pure, Except.pure, Emitter.sealBodyWith_default]

theorem Build.Emitted.minimal
    {m : MethodRef} {method : MethodDecl} {result : MethodBody}
    (h : Emitted m (.minimal : Body ρ) method result) (hkind : method.kind ≠ .constructor)
    (hreturns : method.returnType ≠ .void) :
  result = method.returnType.minimalBody
  := by
  obtain ⟨w, entry, target, remarks, hentry, hhead, hemit⟩ := h
  have hsame : entry.kind = method.kind := (congrArg MethodDecl.kind hhead :)
  have htype : entry.returnType = method.returnType := (congrArg MethodDecl.returnType hhead :)
  rw [emitBody_minimal target hentry (hsame ▸ hkind) (htype ▸ hreturns), htype] at hemit
  cases hemit
  rfl

/-- A method that is declared properly, without another one like it, can be given a minimal
body. -/
theorem Build.exec_defineMethod_minimal
    {w : Workspace} {d : TypeDecl} {name : String} {spec : MethodSpec} {kind : MethodKind}
    {entry : MethodDecl} {target : Option Overridden} (h : w.Editable d)
    (hdeclared : w.declaration d.id name spec kind = .ok (entry, target))
    (hfree : d.hasMethodLike entry = false) (habstract : entry.isAbstract = false)
    (hkind : entry.kind ≠ .constructor) (hreturns : entry.returnType ≠ .void) :
  (defineMethod d.id name spec (.minimal : Body ρ) kind).exec w
    = (.ok (d.methodRef d.methods.length, []),
        w.redefining (d.pushMethod { entry with body := some entry.returnType.minimalBody }))
  := by
  have hreserved : (w.redefining (d.pushMethod entry)).Editable (d.pushMethod entry) :=
    h.redefining rfl rfl (h.self_indexed.pushMethod entry)
  apply exec_defineMethod_emitted h hdeclared hfree habstract
  apply emitBody_minimal target _ hkind hreturns
  exact methodDecl_of_decl? hreserved.decl (getElem?_pushMethod d entry)

/-! ## What is executed -/

namespace Value

theorem coerceTo_initial (t : TypeRef) : (initial t).toStack.coerceTo t = initial t := by
  unfold coerceTo initial
  cases t.form with
  | signed w => cases w <;> rfl
  | unsigned w => cases w <;> rfl
  | float w => cases w <;> rfl
  | _ => rfl

/-- Only a generic parameter starts otherwise with type arguments. -/
theorem initial_substitute {t : TypeRef} (ht : t.isGeneric = false) (params : List String)
    (typeArgs : List TypeRef) :
  initial (t.substitute params typeArgs) = initial t
  := by
  cases t with
  | generic name => cases ht
  | _ => rfl

end Value

namespace Launch

variable {l : Launch} {t : TypeRef}

/-- The load of a default pushes it. -/
theorem execute_defaultLoad (s : Surroundings) (heap : Heap) (ht : t ≠ .void) :
  s.execute heap (l.frame t.minimalBody 0 []) t.form.defaultLoad
    = (s.push (l.frame t.minimalBody 0 [])
        (Value.initial (t.substitute l.method.genericParams l.typeArgs)).toStack).map
          fun f => (.proceed f, heap)
  := by
  cases hgeneric : t.isGeneric with
  | true =>
      cases t with
      | generic parameter => rfl
      | _ => cases hgeneric
  | false =>
      have hform := t.form_ne_generic hgeneric
      rw [Value.initial_substitute hgeneric, Value.initial]
      generalize l.frame t.minimalBody 0 [] = f
      generalize t.form = form at hform
      cases form with
      | generic => exact absurd rfl hform
      | signed w => cases w <;> rfl
      | unsigned w => cases w <;> rfl
      | float w => cases w <;> rfl
      | _ => rfl

end Launch

namespace Host

variable {session : Session} {r : RealizedMethod} {typeArgs : List TypeRef} {host host' : HostState}

/-- A run of a minimal body. -/
theorem exec_execute_minimal
    (args : List Value) (hbody : r.body = some r.returnType.minimalBody)
    (habstract : r.isAbstract = false) (hreturns : r.returnType ≠ .void)
    (harity : typeArgs.length = r.genericParams.length) (hallow : host.machine.limits.Allow 1 1 2) :
  (execute session r args typeArgs).exec host
    = (.ok (Value.initial (r.returnType.substitute r.genericParams typeArgs)).toStack,
        { host with machine := { host.machine with steps := 2 } })
  := by
  let l : Launch := ⟨host, r, args, typeArgs⟩
  have hcallable : l.method.callableBody l.typeArgs = .ok r.returnType.minimalBody :=
    RealizedMethod.callableBody_eq hbody habstract harity
  have hloaded : l.Passes session r.returnType.minimalBody 1 host
      [(Value.initial (r.returnType.substitute r.genericParams typeArgs)).toStack.toStack] :=
    Launch.Passes.start.push hallow Nat.zero_lt_two rfl Nat.zero_lt_one
      fun s => l.execute_defaultLoad s host.heap hreturns
  rw [Value.toStack_toStack] at hloaded
  exact hloaded.exec_execute hcallable hallow Nat.one_lt_two (by decide)
    (Launch.step_ret rfl (fun budget hb => hallow.steps budget hb) hreturns)

/-- A call of a method with a minimal body. -/
theorem exec_callResolved_minimal
    {receiver : Option Value} {args bound : List Value}
    (hbody : r.body = some r.returnType.minimalBody) (habstract : r.isAbstract = false)
    (hreturns : r.returnType ≠ .void) (harity : typeArgs.length = r.genericParams.length)
    (harguments : (arguments session r receiver args).exec host = (.ok bound, host'))
    (hallow : host.machine.limits.Allow 1 1 2) :
  (callResolved session r receiver args typeArgs).exec host
    = (.ok (Value.initial (r.returnType.substitute r.genericParams typeArgs)),
        { host' with machine := { host'.machine with steps := 2 } })
  := by
  rw [← arguments_limits harguments] at hallow
  rw [exec_callResolved_of_execute harguments
    (exec_execute_minimal bound hbody habstract hreturns harity hallow), Value.coerceTo_initial]

end Host

/-! ## Throughout a session -/

/-- A call of the host calls a method, which takes the arguments and the type arguments, and the
static side of its type can be set up if it has to be. -/
structure HostCall.Invokes (call : HostCall) (session : Session) (host : HostState)
    (m : RealizedMethod) (typeArgs : List TypeRef) : Prop where
  answers : call.writes = false
  arity : typeArgs.length = m.genericParams.length
  plan : ∃ receiver args bound host', call.plan session = .ok (.invoke m receiver args typeArgs)
    ∧ (Host.arguments session m receiver args).exec host = (.ok bound, host')

namespace Project

/-- A method that returns a value can always be given a minimal body, and as long as the body is
not replaced, every call of it returns the value that a slot of the return type starts with, with
the type arguments in place of the generic parameters. -/
theorem minimal_of_history
    (verify : Bool) (before : List (HostEvent ρ)) {i : Nat} {a : Assembly}
    (ha : ((empty verify).run before).units[i]? = some a) (w : Workspace)
    (hw : w = { session := ((empty verify).run before).session, assembly := a }) :
  (∀ owner name spec d entry target, w.assembly.building owner = .ok d →
    w.declaration owner name spec .method = .ok (entry, target) →
    d.hasMethodLike entry = false → entry.isAbstract = false → entry.returnType ≠ .void →
      ∃ m, Change.Gives w m .minimal (.defineMethod owner name spec (.minimal : Body ρ)))
  ∧ ∀ c m later session r, Change.Gives w m .minimal c → (∀ e ∈ later, ¬ e.Replaces m) →
    session = ((empty verify).run (before ++ .build (.change i c) :: later)).session →
    session.methodAt m = .ok r → r.isAbstract = false → r.kind ≠ .constructor →
    r.returnType ≠ .void →
      ∀ (call : HostCall) (host : HostState) typeArgs, call.Invokes session host r typeArgs →
        host.machine.limits.Allow 1 1 2 →
          ((call.perform session).exec host).1
            = .ok (Value.initial (r.returnType.substitute r.genericParams typeArgs))
  := by
  subst hw
  have hlawful := lawful_run verify before
  have horderly := hlawful.indexed.orderly hlawful.sound ha
  constructor
  · intro owner name spec d entry target hbuilding hdeclared hfree habstract hreturns
    obtain ⟨hd, rfl⟩ := horderly.editable hbuilding
    have hkind : entry.kind ≠ .constructor := by
      obtain ⟨d', -, rfl, -⟩ := Build.declaration_ok hdeclared
      exact nofun
    exact ⟨_, .method
      (Build.exec_defineMethod_minimal hd hdeclared hfree habstract hkind hreturns)⟩
  · rintro c m later session r hgives hkept rfl hr habstract hkind hreturns call host typeArgs
      ⟨hwrites, harity, receiver, args, bound, host', hplan, harguments⟩ hallow
    obtain ⟨method, result, hreferent, hbody, hemitted⟩ :=
      body_of_history verify before later ha hgives hkept (methodAt_ok_iff.mp hr) habstract
    obtain ⟨-, -, hsame, -, -, htype, -⟩ := Referent.method.inj hreferent
    rw [hemitted.minimal (hsame ▸ hkind) (htype ▸ hreturns), ← htype] at hbody
    rw [HostCall.perform_of_invoke hplan hwrites,
      Host.exec_callResolved_minimal hbody habstract hreturns harity harguments hallow]

/-- A class without members. -/
def opening : List (HostEvent Unit) :=
  [ .build (.openUnit "A"),
    .build (.change 0 (.declareType "T" .classType {} none)) ]

/-- A generic method with a minimal body. -/
def defaulting : Change Unit :=
  .defineMethod ⟨1⟩ "Default"
    { modifier := .isStatic
      params := some [{ name := "x", type := .primitive .i32 }]
      returnType := some (.generic "T")
      genericParams := ["T"] }
    .minimal

/-- The session with the class and the method. -/
def defaulted : Session :=
  ((empty true).run (opening ++ .build (.change 0 defaulting) :: [.build (.change 0 .finalize)])).session

/-- A machine whose limits allow one frame, one value on the stack and two instructions. -/
def narrow : HostState :=
  ⟨{ limits := { maxCallDepth := 1, stepBudget := some 2, maxStackDepth := 1 } }, {}⟩

/-- The method returns the wide zero for a wide type argument. -/
theorem minimal_of_defaulting :
  (((HostCall.callGenericMethod ⟨⟨1⟩, 0⟩ [.primitive .i64] none [.i32 5]).perform defaulted).exec
    narrow).1 = .ok (.i64 0)
  := by
  obtain ⟨a, ha⟩ : ∃ a, ((empty true).run opening).units[0]? = some a := ⟨_, rfl⟩
  have hgives : Change.Gives { session := ((empty true).run opening).session, assembly := a }
      ⟨⟨1⟩, 0⟩ .minimal defaulting := by
    cases ha
    exact .method rfl
  have hmethod : (defaulted.methodAt ⟨⟨1⟩, 0⟩).toOption.map (fun r =>
      (r.isAbstract, r.kind, r.returnType, r.genericParams,
        ((Host.arguments defaulted r none [.i32 5]).exec narrow).1.toOption.isSome))
      = some (false, .method, .generic "T", ["T"], true) := by
    decide +kernel
  obtain ⟨r, hfound, hfacts⟩ := Option.map_eq_some_iff.mp hmethod
  simp only [Prod.mk.injEq] at hfacts
  obtain ⟨habstract, hkind, htype, hparams, harguments⟩ := hfacts
  have hr := ok_of_toOption hfound
  obtain ⟨bound, hbound⟩ := Option.isSome_iff_exists.mp harguments
  have hplan : (HostCall.callGenericMethod ⟨⟨1⟩, 0⟩ [.primitive .i64] none [.i32 5]).plan defaulted
      = .ok (.invoke r none [.i32 5] [.primitive .i64]) := by
    rw [HostCall.plan, hr]
    rfl
  have hreturned := (minimal_of_history true opening ha _ rfl).2 defaulting ⟨⟨1⟩, 0⟩
    [.build (.change 0 .finalize)] defaulted r hgives (by simp [HostEvent.Replaces]) rfl hr
    habstract (hkind ▸ nofun) (htype ▸ nofun) _ narrow [.primitive .i64]
    ⟨rfl, hparams ▸ rfl, none, [.i32 5], bound, _, hplan,
      Prod.ext (ok_of_toOption hbound) rfl⟩
    ⟨Nat.le_refl 1, Nat.le_refl 1, fun budget hbudget => Nat.le_of_eq (Option.some.inj hbudget)⟩
  rw [hreturned, htype, hparams]
  rfl

end Project

end ManagedCode
