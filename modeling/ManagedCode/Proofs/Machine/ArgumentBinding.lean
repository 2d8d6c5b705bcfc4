import ManagedCode.Proofs.Machine.Instantiation
import ManagedCode.Proofs.Machine.Worlds

/-!
# Arguments of generic methods

A host passes arguments to a generic method with type arguments.  The result is brought to the
return type with the type arguments in place of the generic parameters, but the arguments are
brought to the types of the parameters as they are declared, and a generic parameter takes every
value as it is.  So a call with type arguments is a call of the copy that has them in its body and
its return type (`RealizedMethod.returning`).  It is one of the copy that has them in its whole
signature unless one of the types reshapes a value that it stands for (`RealizedMethod.Reshapes`).
-/

namespace ManagedCode

/-! ## Values in the form of a type -/

/-- Only a generic parameter has the form of one. -/
theorem TypeRef.form_ne_generic {t : TypeRef} (ht : t.isGeneric = false) : t.form ≠ .generic := by
  cases t with
  | primitive p => cases p <;> exact nofun
  | defined handle =>
      obtain ⟨id, kind⟩ := handle
      cases kind with
      | enumType p => cases p <;> exact nofun
      | _ => exact nofun
  | generic name => cases ht
  | _ => exact nofun

namespace Value

/-- The form of a type and the form on the stack are not the same for a value. -/
def Reshaped (v : Value) (t : TypeRef) : Prop :=
  match t.form, v with
  | .bool, i32 x => x ≠ 0 ∧ x ≠ 1
  | .bool, i64 _ => True
  | .signed .w64, i32 _ => True
  | .unsigned .w64, i32 _ => True
  | .float .double, f32 _ => True
  | _, _ => False

theorem toStack_toStack (v : Value) : v.toStack.toStack = v.toStack := by
  cases v <;> rfl

theorem toStack_coerceTo (v : Value) (t : TypeRef) :
  (v.coerceTo t).toStack = v.toStack ↔ ¬ v.Reshaped t
  := by
  have hbool (x : Int32) : (if x = 0 then 0 else 1) = x ↔ (¬ x = 0 → x = 1) := by
    by_cases hx : x = 0
    · rw [if_pos hx]
      exact iff_of_true hx.symm fun h => absurd hx h
    · rw [if_neg hx, imp_iff_right hx, eq_comm]
  unfold coerceTo Reshaped
  cases t.form with
  | bool => cases v <;> simp [toStack, hbool]
  | signed w | unsigned w => cases w <;> cases v <;> simp [toStack]
  | float w => cases w <;> cases v <;> simp [toStack]
  | _ => cases v <;> simp

/-- Only a generic parameter has another form with type arguments. -/
theorem coerceTo_substitute {t : TypeRef} (ht : t.isGeneric = false) (v : Value)
    (params : List String) (typeArgs : List TypeRef) :
  v.coerceTo (t.substitute params typeArgs) = v.coerceTo t
  := by
  cases t with
  | generic name => cases ht
  | _ => rfl

/-- The stack only takes the form from a boolean that is not in a place for booleans. -/
theorem coerceTo_toStack_coerceTo_iff (v : Value) (t : TypeRef) :
  (v.coerceTo t).toStack.coerceTo t = v.coerceTo t ↔ ¬∃ b, v = bool b ∧ t.form ≠ .bool
  := by
  have hbool (b : Bool) : ((if b then 1 else 0 : Int32) != 0) = b := by
    cases b <;> rfl
  unfold coerceTo
  generalize t.form = form
  cases form with
  | bool =>
      have hfits : ¬∃ b, v = bool b ∧ ValueForm.bool ≠ .bool := fun ⟨_, _, h⟩ => h rfl
      refine iff_of_true ?_ hfits
      cases v with
      | bool b => exact congrArg bool (hbool b)
      | i32 x => exact congrArg bool (hbool (x != 0))
      | i64 x => exact congrArg bool (hbool (x != 0))
      | _ => rfl
  | signed w | unsigned w => cases w <;> cases v <;> simp [toStack]
  | float w => cases w <;> cases v <;> simp [toStack]
  | _ => cases v <;> simp [toStack]

/-- A value that is accepted for a type comes back from the stack in the form of the type. -/
theorem coerceTo_toStack_coerceTo
    {v : Value} {t : TypeRef} (ht : t.isGeneric = false) (h : v.fits t = true) :
  (v.coerceTo t).toStack.coerceTo t = v.coerceTo t
  := by
  rw [coerceTo_toStack_coerceTo_iff]
  rintro ⟨b, rfl, hform⟩
  have hgeneric := TypeRef.form_ne_generic ht
  unfold fits at h
  generalize t.form = form at h hform hgeneric
  cases form with
  | bool => exact hform rfl
  | generic => exact hgeneric rfl
  | signed w | unsigned w => cases w <;> cases h
  | _ => cases h

/-- A generic parameter takes every value as it is. -/
theorem coerceTo_of_isGeneric {t : TypeRef} (ht : t.isGeneric = true) (v : Value) :
  v.coerceTo t = v
  := by
  cases t with
  | generic name => cases v <;> rfl
  | _ => cases ht

end Value

/-! ## Arguments that are bound -/

/-- Two ways to answer for the elements of a list that refuse the same elements give the same
answers unless they differ where neither refuses an element. -/
theorem mapM_eq_iff {α β ε : Type} {f g : α → Except ε β} {xs : List α}
    (herrors : ∀ x ∈ xs, ∀ error, f x = .error error ↔ g x = .error error) :
  xs.mapM f = xs.mapM g ↔ ((∃ ys, xs.mapM f = .ok ys) → ∀ x ∈ xs, f x = g x)
  := by
  induction xs with
  | nil => simp
  | cons x xs ih =>
      have herrors' := List.forall_mem_cons.mp herrors
      have ih := ih herrors'.2
      rw [List.mapM_cons, List.mapM_cons, List.forall_mem_cons]
      cases hx : f x with
      | error error =>
          rw [(herrors'.1 error).mp hx]
          exact iff_of_true rfl fun ⟨_, hok⟩ => nomatch hok
      | ok a =>
          obtain ⟨b, hb⟩ : ∃ b, g x = .ok b := by
            cases hg : g x with
            | ok b => exact ⟨b, rfl⟩
            | error error =>
                rw [(herrors'.1 error).mpr hg] at hx
                cases hx
          rw [hb]
          cases hxs : xs.mapM f with
          | error error =>
              have hsame := ih.mpr fun ⟨_, hok⟩ => nomatch hxs.symm.trans hok
              rw [← hsame, hxs]
              exact iff_of_true rfl fun ⟨_, hok⟩ => nomatch hok
          | ok ys =>
              have hall : Except.ok ys = xs.mapM g ↔ ∀ x ∈ xs, f x = g x := by
                rw [← hxs, ih, hxs]
                exact imp_iff_right ⟨ys, rfl⟩
              change Except.ok (a :: ys) = (xs.mapM g >>= fun zs => .ok (b :: zs))
                ↔ ((∃ zs, Except.ok (a :: ys) = .ok zs) → _)
              rw [← hall, imp_iff_right ⟨_, rfl⟩]
              cases xs.mapM g with
              | error error => simp [bind, Except.bind]
              | ok zs => simp [bind, Except.bind]

namespace RealizedMethod

variable {m : RealizedMethod} {typeArgs : List TypeRef} {args : List Value}

/-- The value for a parameter: an argument, or the default of the parameter. -/
def valueFor (p : Parameter) (arg : Option Value) : Option Value :=
  arg <|> p.default.map Value.ofConstant

/-- The arguments are bound, and a type argument reshapes one of the values that it stands for. -/
def Reshapes (m : RealizedMethod) (typeArgs : List TypeRef) (args : List Value) : Prop :=
  (∃ bound, m.bindArguments args = .ok bound)
  ∧ ∃ (i : Nat) (p : Parameter) (v : Value),
      m.params[i]? = some p ∧ valueFor p args[i]? = some v
      ∧ p.type.isGeneric = true ∧ v.Reshaped (p.type.substitute m.genericParams typeArgs)

/-- A parameter with its type in the copy. -/
def parameter (m : RealizedMethod) (typeArgs : List TypeRef) (p : Parameter) : Parameter :=
  { p with type := p.type.substitute m.genericParams typeArgs }

theorem bindParam_eq (m : RealizedMethod) (p : Parameter) (arg : Option Value) :
  m.bindParam p arg = match valueFor p arg with
    | some v => .ok (v.coerceTo p.type).toStack
    | none => .error (.typeError ("missing argument '" ++ p.name ++ "' for '" ++ m.name ++ "'"))
  := rfl

/-- The copy binds a parameter otherwise than the method does if the type argument reshapes its
value. -/
theorem bindParam_monomorphic (m : RealizedMethod) (typeArgs : List TypeRef) (p : Parameter)
    (arg : Option Value) :
  m.bindParam p arg = (m.monomorphic typeArgs).bindParam (m.parameter typeArgs p) arg
    ↔ ∀ v, valueFor p arg = some v → p.type.isGeneric = true →
      ¬ v.Reshaped (p.type.substitute m.genericParams typeArgs)
  := by
  have hvalue : valueFor (m.parameter typeArgs p) arg = valueFor p arg := rfl
  rw [bindParam_eq, bindParam_eq, hvalue]
  cases valueFor p arg with
  | none => exact iff_of_true rfl nofun
  | some v =>
      change Except.ok _ = Except.ok ((v.coerceTo (p.type.substitute _ _)).toStack) ↔ _
      simp only [Option.some.injEq, forall_eq', Except.ok.injEq]
      cases hgeneric : p.type.isGeneric with
      | true =>
          rw [Value.coerceTo_of_isGeneric hgeneric, eq_comm, Value.toStack_coerceTo]
          exact (imp_iff_right rfl).symm
      | false =>
          rw [Value.coerceTo_substitute hgeneric]
          exact iff_of_true rfl nofun

theorem bindParam_error (m : RealizedMethod) (typeArgs : List TypeRef) (p : Parameter)
    (arg : Option Value) (error : Fault) :
  m.bindParam p arg = .error error
    ↔ (m.monomorphic typeArgs).bindParam (m.parameter typeArgs p) arg = .error error
  := by
  have hvalue : valueFor (m.parameter typeArgs p) arg = valueFor p arg := rfl
  rw [bindParam_eq, bindParam_eq, hvalue]
  cases valueFor p arg with
  | none => exact Iff.rfl
  | some v => exact iff_of_false nofun nofun

/-- The copy binds the arguments otherwise than the method does if a type argument reshapes one of
the values that it stands for. -/
theorem bindArguments_monomorphic (m : RealizedMethod) (typeArgs : List TypeRef)
    (args : List Value) :
  m.bindArguments args = (m.monomorphic typeArgs).bindArguments args
    ↔ ¬ m.Reshapes typeArgs args
  := by
  have hparams : (m.monomorphic typeArgs).params = m.params.map (m.parameter typeArgs) := rfl
  have hname : (m.monomorphic typeArgs).name = m.name := rfl
  have hindexed : (m.params.map (m.parameter typeArgs)).mapIdx (fun i p => (i, p))
      = (m.params.mapIdx fun i p => (i, p)).map fun x => (x.1, m.parameter typeArgs x.2) := by
    apply List.ext_getElem?
    intro i
    simp only [List.getElem?_mapIdx, List.getElem?_map, Option.map_map, Function.comp_def]
  rw [Reshapes, bindArguments, bindArguments, hparams, hname, List.length_map]
  split
  · exact iff_of_true rfl fun ⟨⟨_, hok⟩, _⟩ => nomatch hok
  · rw [hindexed, List.mapM_map, mapM_eq_iff fun x _ => m.bindParam_error typeArgs x.2 _, not_and]
    refine imp_congr_right fun _ => ?_
    constructor
    · rintro hall ⟨i, p, v, hp, hv, hgeneric, hreshaped⟩
      obtain ⟨hi, rfl⟩ := List.getElem?_eq_some_iff.mp hp
      have hbound := hall (i, m.params[i]) (List.mem_mapIdx.mpr ⟨i, hi, rfl⟩)
      exact (m.bindParam_monomorphic typeArgs _ _).mp hbound v hv hgeneric hreshaped
    · intro hnone x hx
      obtain ⟨i, hi, rfl⟩ := List.mem_mapIdx.mp hx
      refine (m.bindParam_monomorphic typeArgs _ _).mpr fun v hv hgeneric hreshaped => ?_
      exact hnone ⟨i, m.params[i], v, List.getElem?_eq_getElem hi, hv, hgeneric, hreshaped⟩

/-! ## Calls of the host -/

/-- The copy with the type arguments in its body and its return type. -/
def returning (m : RealizedMethod) (typeArgs : List TypeRef) : RealizedMethod :=
  { m.instantiate typeArgs with returnType := m.returnType.substitute m.genericParams typeArgs }

theorem mirrors_returning (m : RealizedMethod) {typeArgs : List TypeRef}
    (hvoid : .void ∉ typeArgs) :
  (m.returning typeArgs).Mirrors m typeArgs
  := ⟨rfl, substitute_eq_void_iff_of_not_mem hvoid _, rfl, rfl, rfl⟩

/-- A copy with the type arguments in its return type is called as the method is, if it binds the
arguments alike. -/
theorem Mirrors.callResolved {copy : RealizedMethod}
    (hcopy : copy.Mirrors m typeArgs) (hlength : typeArgs.length = m.genericParams.length)
    (hhandle : copy.handle = m.handle) (hattributes : copy.attributes = m.attributes)
    (hreturn : copy.returnType = m.returnType.substitute m.genericParams typeArgs)
    (hbind : m.bindArguments args = copy.bindArguments args)
    (session : Session) (receiver : Option Value) :
  Host.callResolved session m receiver args typeArgs
    = Host.callResolved session copy receiver args []
  := by
  have hstatic : copy.isStatic = m.isStatic := congrArg (·.isStatic) hattributes
  have hreceiver : ∀ bound,
      Host.withReceiver copy receiver bound = Host.withReceiver m receiver bound := by
    intro bound
    cases receiver with
    | none => simp only [Host.withReceiver, hcopy.name]
    | some v => rfl
  simp only [Host.callResolved, hbind, hstatic, hhandle, hreceiver, hreturn, TypeRef.substitute_nil,
    hcopy.execute hlength session]

end RealizedMethod

namespace Host

/-- The method that a call with type arguments executes. -/
def genericTarget (session : Session) (method : MethodRef) (receiver : Option Value) :
    Except Fault RealizedMethod := do
  let m ← session.methodAt method
  match receiver with
  | some v => if m.isStatic then pure m else session.dispatch v m
  | none => pure m

theorem callGenericMethod_eq
    {session : Session} {method : MethodRef} {receiver : Option Value} {m : RealizedMethod}
    (htarget : genericTarget session method receiver = .ok m) (typeArgs : List TypeRef)
    (args : List Value) :
  callGenericMethod session method typeArgs receiver args
    = callResolved session m receiver args typeArgs
  := by
  rw [genericTarget] at htarget
  rw [callGenericMethod]
  cases hm : session.methodAt method with
  | error error =>
      rw [hm] at htarget
      cases htarget
  | ok declared =>
      rw [hm] at htarget
      change (match receiver with
        | some v => if declared.isStatic then pure declared else session.dispatch v declared
        | none => pure declared) = Except.ok m at htarget
      cases receiver with
      | none =>
          cases htarget
          rfl
      | some v =>
          dsimp only at htarget
          split at htarget
          · next hstatic =>
            cases htarget
            simp only [lift, pure_bind, hstatic, if_true]
          · next hstatic =>
            simp only [lift, pure_bind, hstatic, htarget]
            rfl

/-- A call with type arguments is a call of the copy that has them in its body and its return type,
whose parameters are declared as those of the method.  The copy that has them in the types of the
parameters as well binds the same arguments if and only if no type argument reshapes a value that it
stands for, and then a call of it is the same, too. -/
theorem callGenericMethod_copies
    (session : Session) (method : MethodRef) (typeArgs : List TypeRef) (receiver : Option Value)
    (args : List Value) {m : RealizedMethod}
    (htarget : genericTarget session method receiver = .ok m)
    (hlength : typeArgs.length = m.genericParams.length) (hvoid : .void ∉ typeArgs) :
  callGenericMethod session method typeArgs receiver args
    = callResolved session (m.returning typeArgs) receiver args []
  ∧ (m.bindArguments args = (m.monomorphic typeArgs).bindArguments args
    ↔ ¬ m.Reshapes typeArgs args)
  ∧ (¬ m.Reshapes typeArgs args →
    callGenericMethod session method typeArgs receiver args
      = callResolved session (m.monomorphic typeArgs) receiver args [])
  := by
  have hbind := m.bindArguments_monomorphic typeArgs args
  rw [callGenericMethod_eq htarget]
  refine ⟨?_, hbind, fun hkept => ?_⟩
  · exact (m.mirrors_returning hvoid).callResolved hlength rfl rfl rfl rfl session receiver
  · have hmirrors := (RealizedMethod.copies_monomorphic hlength).mirrors hlength hvoid
    exact hmirrors.callResolved hlength rfl rfl rfl (hbind.mpr hkept) session receiver

end Host

namespace World

open Host

/-- A class with a generic method that adds its argument to itself. -/
def doubling : List (Act Unit) :=
  [ .session (.build (.openUnit "A")),
    .session (.build (.change 0 (.declareType "T" .classType {} none))),
    .session (.build (.change 0
      (.defineMethod ⟨1⟩ "Twice"
        { modifier := .isStatic
          params := some [{ name := "x", type := .generic "T" }]
          returnType := some (.generic "T")
          genericParams := ["T"] }
        (.generate fun _ e =>
          .ok ((((e.loadArg 0).loadArg 0).emit (.binary .add)).emit .ret, []))))),
    .session (.build (.change 0 .finalize)) ]

/-- The session with the class. -/
def doubled : Session :=
  ((empty true).after doubling).project.session

/-- The method of the class. -/
def twice : RealizedMethod :=
  (genericTarget doubled ⟨⟨1⟩, 0⟩ none).toOption.getD default

theorem genericTarget_twice : genericTarget doubled ⟨⟨1⟩, 0⟩ none = .ok twice := rfl

/-- The type argument reshapes a narrow argument, and the copy binds another one.  With a wide
argument the call is one of the copy. -/
theorem twice_copies :
  twice.bindArguments [.i32 7] ≠ (twice.monomorphic [.primitive .i64]).bindArguments [.i32 7]
  ∧ callGenericMethod doubled ⟨⟨1⟩, 0⟩ [.primitive .i64] none [.i64 7]
    = callResolved doubled (twice.monomorphic [.primitive .i64]) none [.i64 7] []
  ∧ ((callGenericMethod doubled ⟨⟨1⟩, 0⟩ [.primitive .i64] none [.i64 7]).exec ⟨{}, {}⟩).1
    = .ok (.i64 14)
  := by
  refine ⟨?_, ?_, rfl⟩
  · have hnarrow := callGenericMethod_copies doubled ⟨⟨1⟩, 0⟩ [.primitive .i64] none [.i32 7]
      genericTarget_twice rfl (by decide)
    exact fun hbind => hnarrow.2.1.mp hbind ⟨⟨_, rfl⟩, 0, _, .i32 7, rfl, rfl, rfl, trivial⟩
  · have hwide := callGenericMethod_copies doubled ⟨⟨1⟩, 0⟩ [.primitive .i64] none [.i64 7]
      genericTarget_twice rfl (by decide)
    exact hwide.2.2 (hwide.2.1.mp rfl)

/-- A call with type arguments is not always one of the copy that has them in its whole signature:
the method doubles a narrow argument to `-2` where the copy answers `4294967294`. -/
theorem not_calls_monomorphic :
  ¬ ∀ (session : Session) (method : MethodRef) (typeArgs : List TypeRef) (args : List Value)
      (m : RealizedMethod), genericTarget session method none = .ok m →
      typeArgs.length = m.genericParams.length → .void ∉ typeArgs →
      callGenericMethod session method typeArgs none args
        = callResolved session (m.monomorphic typeArgs) none args []
  := by
  intro hall
  have hsame := hall doubled ⟨⟨1⟩, 0⟩ [.primitive .i64] [.i32 2147483647] twice
    genericTarget_twice rfl (by decide)
  have hanswer := congrArg
    (fun call => (ExceptT.exec call (⟨{}, {}⟩ : HostState)).1.toOption.bind Value.asI64?) hsame
  exact absurd hanswer (by decide +kernel)

end World

end ManagedCode
