import ManagedCode.Proofs.Assembly.Anchors
import ManagedCode.Proofs.Assembly.Holders
import ManagedCode.Proofs.Assembly.Revisions

/-!
# Bodies

An operation that is accepted gives a method the body that has been emitted and sealed for it
(`Change.Gives.emitted`).  The method keeps it, whatever follows, until it is given another one
(`Project.decl?_run`), and a realized method has the body of its declaration (`Layered.enacts`).
-/

namespace ManagedCode

variable {ρ : Type} {w w' : Workspace} {d : TypeDecl}

/-! ## Methods that are defined -/

namespace Build

open Workspace

variable {entry method : MethodDecl} {target : Option Overridden} {body : Body ρ}
  {m : MethodRef} {result : MethodBody} {remarks : List ρ} {name : String} {spec : MethodSpec}
  {kind : MethodKind}

/-- What a reserved method has become: its entry, with the body that has been emitted for it
unless it is abstract. -/
structure Completes (w : Workspace) (d : TypeDecl) (entry : MethodDecl)
    (target : Option Overridden) (body : Body ρ) (method : MethodDecl) : Prop where
  head : method.head = entry.head
  emitted : entry.isAbstract = false → ∃ result remarks, method.body = some result
    ∧ emitBody (w.redefining (d.pushMethod entry)) (d.methodRef d.methods.length) target body
      = .ok (result, remarks)

/-- A method that nothing stands in the way of is reserved. -/
theorem exec_reserve_free (h : w.Editable d) (hfree : d.hasMethodLike entry = false) :
  (reserveMethod d.id entry).exec w
    = (.ok (d.methodRef d.methods.length), w.redefining (d.pushMethod entry))
  := by
  rw [reserveMethod]
  rw [exec_bind, exec_building h]
  dsimp only
  rw [hfree, exec_ite, if_neg Bool.false_ne_true, exec_bind, exec_updateType]
  change (_, w.updated d.id _) = _
  rw [h.updated_eq (f := (·.pushMethod entry)) rfl]

/-- A method that is completed has had a body emitted for it. -/
theorem emitBody_of_completeMethod
    (hok : (completeMethod m target body).exec w = (.ok (m, remarks), w')) :
  ∃ result, emitBody w m target body = .ok (result, remarks)
  := by
  rw [completeMethod] at hok
  rw [exec_bind, exec_get] at hok
  dsimp only at hok
  cases hemit : emitBody w m target body with
  | error e =>
      rw [hemit] at hok
      cases hok
  | ok emitted =>
      obtain ⟨result, remarks'⟩ := emitted
      obtain ⟨declared, hdeclared⟩ := emitBody_ok hemit
      rw [hemit] at hok
      dsimp only at hok
      rw [exec_bind, exec_putBody hdeclared] at hok
      cases hok
      exact ⟨result, rfl⟩

/-- An operation that adds a part and is accepted leaves the type with the part. -/
theorem Adding.of_ok
    {α : Type} {handles : α → List Handle} {b : Build α} {a : α} {id : TypeId}
    (hb : Adding id handles b) (h : w.Editable d) (hid : d.id = id) (hok : b.exec w = (.ok a, w')) :
  ∃ d', w' = w.redefining d' ∧ d.Appends d' ∧ w'.Editable d'
  := by
  obtain ⟨e, hexec⟩ | ⟨a', d', hexec, happends, hindexed, -⟩ := hb h hid
  · rw [hexec] at hok
    cases hok
  · rw [hexec] at hok
    cases hok
    exact ⟨d', rfl, happends, h.redefining happends.id_eq happends.state hindexed⟩

/-- What a method that is defined becomes. -/
theorem exec_defineMethod_ok
    (h : w.Editable d)
    (hok : (defineMethod d.id name spec body kind).exec w = (.ok (m, remarks), w')) :
  ∃ entry target method, w.declaration d.id name spec kind = .ok (entry, target)
    ∧ m = d.methodRef d.methods.length ∧ w' = w.redefining (d.pushMethod method)
    ∧ Completes w d entry target body method
  := by
  rw [defineMethod] at hok
  obtain ⟨⟨entry, target⟩, w₁, hask, hok⟩ := exists_of_exec_bind_ok hok
  rw [exec_ask] at hask
  obtain ⟨hdeclared, rfl⟩ := Prod.mk.inj hask
  obtain ⟨m₁, w₂, hreserve, hok⟩ := exists_of_exec_bind_ok hok
  obtain ⟨e, hexec⟩ | hexec := exec_reserve h entry
  · rw [hexec] at hreserve
    cases hreserve
  · rw [hexec] at hreserve
    cases hreserve
    rw [exec_ite] at hok
    split at hok
    · next habstract =>
      cases hok
      refine ⟨entry, target, entry, hdeclared, rfl, rfl, rfl, ?_⟩
      intro hnot
      rw [habstract] at hnot
      cases hnot
    · obtain ⟨e, hfailed⟩ | ⟨_, _, hdone⟩ := exec_completeMethod h entry target body
      · rw [hfailed] at hok
        cases hok
      · rw [hdone] at hok
        cases hok
        obtain ⟨result, hemit⟩ := emitBody_of_completeMethod hdone
        rw [exec_completeMethod_emitted h hemit] at hdone
        refine ⟨entry, target, { entry with body := some result }, hdeclared, rfl,
          (congrArg Prod.snd hdone).symm, rfl, ?_⟩
        exact fun _ => ⟨result, _, rfl, hemit⟩

/-- A method that is declared properly, without another one like it, is defined if its body can be
emitted. -/
theorem exec_defineMethod_emitted
    (h : w.Editable d) (hdeclared : w.declaration d.id name spec kind = .ok (entry, target))
    (hfree : d.hasMethodLike entry = false) (habstract : entry.isAbstract = false)
    (hemit : emitBody (w.redefining (d.pushMethod entry)) (d.methodRef d.methods.length) target body
      = .ok (result, remarks)) :
  (defineMethod d.id name spec body kind).exec w
    = (.ok (d.methodRef d.methods.length, remarks),
        w.redefining (d.pushMethod { entry with body := some result }))
  := by
  rw [defineMethod]
  rw [exec_bind, exec_ask, hdeclared]
  dsimp only
  rw [exec_bind, exec_reserve_free h hfree]
  dsimp only
  rw [exec_ite, habstract, if_neg Bool.false_ne_true, exec_completeMethod_emitted h hemit]

/-! ## Properties that are defined -/

end Build

namespace PropertySpec

/-- What the declaration of a property asks of its getter. -/
def getterSpec (spec : PropertySpec ρ) (t : TypeRef) : MethodSpec :=
  { visibility := spec.visibility
    modifier := spec.modifier
    params := some []
    returnType := some t }

/-- What the declaration of a property asks of its setter. -/
def setterSpec (spec : PropertySpec ρ) (t : TypeRef) : MethodSpec :=
  { visibility := spec.visibility
    modifier := spec.modifier
    params := some [{ name := "value", type := t }]
    returnType := some .void }

end PropertySpec

namespace Build

open Workspace

variable {t : TypeRef} {spec : PropertySpec ρ} {r : PropertyRef} {name : String}
  {remarks : List ρ}

/-- The parts of a property that is defined have been defined one after the other, and the property
stands behind them. -/
theorem exec_addProperty_ok
    (h : w.Editable d) (hok : (addProperty d.id name t spec).exec w = (.ok (r, remarks), w')) :
  ∃ bodies d₁ d₂ d₃ first second,
    (accessorBodies d.id name t spec).exec w = (.ok bodies, w.redefining d₁)
    ∧ (w.redefining d₁).Editable d₁ ∧ d₁.id = d.id
    ∧ (defineAccessor d.id ("get_" ++ name) (spec.getterSpec t) .getter bodies.getter).exec
        (w.redefining d₁) = (.ok (r.getter, first), w.redefining d₂)
    ∧ (w.redefining d₂).Editable d₂ ∧ d₁.Appends d₂
    ∧ (defineAccessor d.id ("set_" ++ name) (spec.setterSpec t) .setter bodies.setter).exec
        (w.redefining d₂) = (.ok (r.setter, second), w.redefining d₃)
    ∧ (w.redefining d₃).Editable d₃ ∧ d₂.Appends d₃
    ∧ r.backingField = bodies.field
    ∧ w' = w.redefining (d₃.pushProperty
        { name := name
          type := t
          getter := r.getter.map (·.index)
          setter := r.setter.map (·.index)
          backingField := r.backingField.map (·.index) })
  := by
  have hagain : ∀ {d' d'' : TypeDecl}, d'.Appends d'' →
      (w.redefining d').redefining d'' = w.redefining d'' :=
    fun happends => redefining_redefining happends.id_eq
  rw [addProperty] at hok
  obtain ⟨bodies, w₁, hbodies, hok⟩ := exists_of_exec_bind_ok hok
  obtain ⟨d₁, rfl, h₁, hw₁⟩ :=
    Adding.of_ok (adding_accessorBodies d.id name t spec) h rfl hbodies
  obtain ⟨⟨getter, first⟩, w₂, hgetter, hok⟩ := exists_of_exec_bind_ok hok
  obtain ⟨d₂, rfl, h₂, hw₂⟩ :=
    Adding.of_ok (adding_defineAccessor d.id _ _ _ _) hw₁ h₁.id_eq hgetter
  rw [hagain h₂] at hgetter hok hw₂
  obtain ⟨⟨setter, second⟩, w₃, hsetter, hok⟩ := exists_of_exec_bind_ok hok
  obtain ⟨d₃, rfl, h₃, hw₃⟩ :=
    Adding.of_ok (adding_defineAccessor d.id _ _ _ _) hw₂ (h₁.trans h₂).id_eq hsetter
  rw [hagain h₃] at hsetter hok hw₃
  have hid : d₃.id = d.id := ((h₁.trans h₂).trans h₃).id_eq
  dsimp only at hok
  rw [← hid] at hok
  rw [exec_bind, exec_building hw₃] at hok
  dsimp only at hok
  rw [exec_bind, exec_updateType] at hok
  cases hok
  refine ⟨bodies, d₁, d₂, d₃, first, second, hbodies, hw₁, h₁.id_eq, hgetter, hw₂, h₂, hsetter,
    hw₃, h₃, rfl, ?_⟩
  exact (hw₃.updated_eq (f := (·.pushProperty _)) rfl).trans (redefining_redefining rfl)

/-- What a property that is defined has passed. -/
theorem addProperty_of_defineProperty
    (h : w.Editable d) (hok : (defineProperty d.id name t spec).exec w = (.ok (r, remarks), w')) :
  (addProperty d.id name t spec).exec w = (.ok (r, remarks), w')
    ∧ d.handle.kind.isEnum = false ∧ t ≠ .void ∧ d.properties.any (·.name == name) = false
  := by
  rw [defineProperty] at hok
  rw [exec_ite] at hok
  split at hok
  · cases hok
  · rw [exec_bind, exec_building h] at hok
    dsimp only at hok
    rw [exec_ite] at hok
    split at hok
    · obtain ⟨e, hrefused⟩ := refusing_invalid (α := PropertyRef × List ρ) d.id _ w
      rw [hrefused] at hok
      cases hok
    · next henum =>
      rw [exec_ite] at hok
      split at hok
      · obtain ⟨e, hrefused⟩ := refusing_invalid (α := PropertyRef × List ρ) d.id _ w
        rw [hrefused] at hok
        cases hok
      · next hvoid =>
        rw [exec_ite] at hok
        split at hok
        · cases hok
        · next hfree =>
          rw [exec_tryCatch] at hok
          cases hanswer : ((addProperty d.id name t spec).exec w).1 with
          | ok a =>
              rw [hanswer] at hok
              exact ⟨hok, eq_false_of_ne_true henum, hvoid, eq_false_of_ne_true hfree⟩
          | error e =>
              rw [hanswer] at hok
              dsimp only at hok
              rw [exec_bind, exec_updateType] at hok
              cases hok

/-- An accessor that is defined from a body. -/
theorem exec_defineAccessor_some
    {spec : MethodSpec} {kind : MethodKind} {body : Body ρ} {m : Option MethodRef}
    (hok : (defineAccessor d.id name spec kind (some body)).exec w = (.ok (m, remarks), w')) :
  ∃ method, m = some method
    ∧ (defineMethod d.id name spec body kind).exec w = (.ok (method, remarks), w')
  := by
  rw [defineAccessor] at hok
  obtain ⟨⟨method, remarks'⟩, w₁, hdefine, hok⟩ := exists_of_exec_bind_ok hok
  cases hok
  exact ⟨method, rfl, hdefine⟩

/-- A method that is given another body. -/
theorem exec_replaceBody_ok
    {m : MethodRef} {body : Body ρ} (hok : (replaceBody m body).exec w = (.ok remarks, w')) :
  ∃ d method target result, w.assembly.building m.owner = .ok d
    ∧ d.methods[m.index]? = some method ∧ emitBody w m target body = .ok (result, remarks)
    ∧ w' = w.updated m.owner (·.setBody m.index result)
  := by
  rw [replaceBody] at hok
  obtain ⟨method, w₁, hmethod, hok⟩ := exists_of_exec_bind_ok hok
  rw [buildingMethod, building] at hmethod
  rw [exec_bind, exec_ask] at hmethod
  cases hd : w.assembly.building m.owner with
  | error e =>
      rw [hd] at hmethod
      cases hmethod
  | ok d =>
      rw [hd] at hmethod
      dsimp only at hmethod
      split at hmethod
      · next found hfound =>
        cases hmethod
        rw [exec_bind, exec_get] at hok
        dsimp only at hok
        rw [exec_ite] at hok
        split at hok
        · cases hok
        · obtain ⟨target, w₂, htarget, hok⟩ := exists_of_exec_bind_ok hok
          rw [exec_ask] at htarget
          obtain ⟨-, rfl⟩ := Prod.mk.inj htarget
          obtain ⟨⟨result, remarks'⟩, w₃, hemit, hok⟩ := exists_of_exec_bind_ok hok
          rw [exec_ask] at hemit
          obtain ⟨hemitted, rfl⟩ := Prod.mk.inj hemit
          obtain ⟨declared, hdeclared⟩ := emitBody_ok hemitted
          dsimp only at hok
          rw [exec_bind, exec_putBody hdeclared] at hok
          cases hok
          exact ⟨d, method, target, result, rfl, hfound, hemitted, rfl⟩
      · cases hmethod

/-- A body has been emitted for a method, as its type declared it then. -/
def Emitted (m : MethodRef) (b : Body ρ) (method : MethodDecl) (result : MethodBody) : Prop :=
  ∃ (w : Workspace) (entry : MethodDecl) (target : Option Overridden) (remarks : List ρ),
    methodDecl w m = .ok entry ∧ entry.head = method.head
      ∧ emitBody w m target b = .ok (result, remarks)

theorem methodDecl_of_decl?
    {m : MethodRef} {method : MethodDecl} (hd : w.assembly.decl? m.owner = some d)
    (hmethod : d.methods[m.index]? = some method) :
  methodDecl w m = .ok method
  := by
  rw [methodDecl, Assembly.decl]
  rw [hd]
  dsimp only [bind, Except.bind]
  rw [hmethod]
  rfl

theorem getElem?_pushMethod (d : TypeDecl) (method : MethodDecl) :
  (d.pushMethod method).methods[d.methods.length]? = some method
  := by
  simp [TypeDecl.pushMethod]

/-- A method that has been completed has the body that has been emitted for it. -/
theorem Completes.emits
    {entry method : MethodDecl} {target : Option Overridden} {b : Body ρ}
    (h : Completes w d entry target b method) (hd : w.Editable d)
    (habstract : method.isAbstract = false) :
  ∃ result, method.body = some result
    ∧ Emitted (d.methodRef d.methods.length) b method result
  := by
  have hsame : entry.isAbstract = method.isAbstract :=
    (congrArg MethodDecl.isAbstract h.head.symm :)
  obtain ⟨result, remarks, hbody, hemit⟩ := h.emitted (hsame.trans habstract)
  have hreserved : (w.redefining (d.pushMethod entry)).Editable (d.pushMethod entry) :=
    hd.redefining rfl rfl (hd.self_indexed.pushMethod entry)
  refine ⟨result, hbody, _, entry, target, remarks, ?_, h.head.symm, hemit⟩
  exact methodDecl_of_decl? hreserved.decl (getElem?_pushMethod d entry)

end Build

/-! ## Operations that give bodies -/

/-- An operation that is accepted gives a method a body: it defines the method, or an accessor of a
property, or it replaces the body that the method has had. -/
inductive Change.Gives (w : Workspace) (m : MethodRef) (b : Body ρ) : Change ρ → Prop
  | method {owner : TypeId} {name : String} {spec : MethodSpec} {remarks : List ρ} {w' : Workspace}
      (h : (Build.defineMethod owner name spec b .method).exec w = (.ok (m, remarks), w')) :
      Gives w m b (.defineMethod owner name spec b)
  | getter {id : TypeId} {name : String} {t : TypeRef} {spec : PropertySpec ρ}
      {bodies : Build.AccessorBodies ρ} {r : PropertyRef} {remarks : List ρ} {w' : Workspace}
      (hbodies : ((Build.accessorBodies id name t spec).exec w).1 = .ok bodies)
      (hbody : bodies.getter = some b)
      (h : (Build.defineProperty id name t spec).exec w = (.ok (r, remarks), w'))
      (hm : r.getter = some m) : Gives w m b (.defineProperty id name t spec)
  | setter {id : TypeId} {name : String} {t : TypeRef} {spec : PropertySpec ρ}
      {bodies : Build.AccessorBodies ρ} {r : PropertyRef} {remarks : List ρ} {w' : Workspace}
      (hbodies : ((Build.accessorBodies id name t spec).exec w).1 = .ok bodies)
      (hbody : bodies.setter = some b)
      (h : (Build.defineProperty id name t spec).exec w = (.ok (r, remarks), w'))
      (hm : r.setter = some m) : Gives w m b (.defineProperty id name t spec)
  | replaces {remarks : List ρ} {w' : Workspace}
      (h : (Build.replaceBody m b).exec w = (.ok remarks, w')) : Gives w m b (.replaceBody m b)

/-- A type has a method with the body that has been emitted for it, unless it is abstract. -/
def TypeDecl.Given (d : TypeDecl) (m : MethodRef) (b : Body ρ) : Prop :=
  ∃ method, d.methods[m.index]? = some method
    ∧ (method.isAbstract = false → ∃ result, method.body = some result
      ∧ Build.Emitted m b method result)

theorem TypeDecl.Given.of_appends
    {m : MethodRef} {b : Body ρ} {d' : TypeDecl} (h : d.Given m b) (happends : d.Appends d') :
  d'.Given m b
  := by
  obtain ⟨method, hmethod, hemits⟩ := h
  exact ⟨method, TypeDecl.getElem?_of_isPrefix happends.methods hmethod, hemits⟩

namespace Build

open Workspace

variable {m : MethodRef} {b : Body ρ} {remarks : List ρ}

theorem given_of_defineMethod
    {name : String} {spec : MethodSpec} {kind : MethodKind} (hd : w.Editable d)
    (hok : (defineMethod d.id name spec b kind).exec w = (.ok (m, remarks), w')) :
  m.owner = d.id ∧ ∃ d', w'.assembly.decl? d.id = some d' ∧ d'.Given m b
  := by
  obtain ⟨entry, target, method, -, rfl, rfl, hcompletes⟩ := exec_defineMethod_ok hd hok
  refine ⟨rfl, _, ?_, method, getElem?_pushMethod d method, hcompletes.emits hd⟩
  rw [decl?_redefining, hd.decl, Option.map_some, if_pos]
  rfl

theorem given_of_defineAccessor
    {name : String} {spec : MethodSpec} {kind : MethodKind} {d' : TypeDecl} (hd : w.Editable d)
    (hd' : (w'.redefining d').Editable d') (hid : d'.id = d.id)
    (hok : (defineAccessor d.id name spec kind (some b)).exec w
      = (.ok (some m, remarks), w'.redefining d')) :
  m.owner = d.id ∧ d'.Given m b
  := by
  obtain ⟨_, ⟨⟩, hdefine⟩ := exec_defineAccessor_some hok
  obtain ⟨howner, e, he, hgiven⟩ := given_of_defineMethod hd hdefine
  have hdecl := hd'.decl
  rw [hid, he] at hdecl
  cases hdecl
  exact ⟨howner, hgiven⟩

/-- The accessors that a property gets. -/
theorem given_of_defineProperty
    {id : TypeId} {name : String} {t : TypeRef} {spec : PropertySpec ρ} {bodies : AccessorBodies ρ}
    {r : PropertyRef} (horderly : w.Orderly)
    (hbodies : ((accessorBodies id name t spec).exec w).1 = .ok bodies)
    (hok : (defineProperty id name t spec).exec w = (.ok (r, remarks), w')) :
  ∃ d', w'.assembly.decl? id = some d'
    ∧ (∀ m b, bodies.getter = some b → r.getter = some m → m.owner = id ∧ d'.Given m b)
    ∧ ∀ m b, bodies.setter = some b → r.setter = some m → m.owner = id ∧ d'.Given m b
  := by
  cases hbuilding : w.assembly.building id with
  | error e =>
      have hneeds : Needs id (defineProperty id name t spec) := needs_guard (needs_building _)
      obtain ⟨e', hexec⟩ := hneeds hbuilding
      rw [hexec] at hok
      cases hok
  | ok d =>
      obtain ⟨hd, rfl⟩ := horderly.editable hbuilding
      obtain ⟨hadd, -⟩ := addProperty_of_defineProperty hd hok
      obtain ⟨bodies', d₁, d₂, d₃, first, second, hparts, hd₁, hid₁, hgetter, hd₂, h₂, hsetter, hd₃,
        h₃, -, hw'⟩ := exec_addProperty_ok hd hadd
      rw [hparts] at hbodies
      cases hbodies
      have hid₂ := h₂.id_eq.trans hid₁
      have hid₃ := h₃.id_eq.trans hid₂
      rw [← hid₁] at hgetter
      rw [← hid₂] at hsetter
      obtain ⟨p, hlast⟩ : ∃ p, w'.assembly.decl? d.id = some (d₃.pushProperty p) := by
        rw [hw', decl?_redefining, hd.decl, Option.map_some, if_pos]
        · exact ⟨_, rfl⟩
        · exact hid₃.symm
      refine ⟨_, hlast, ?_, ?_⟩
      · intro m b hb hm
        rw [hb, hm] at hgetter
        obtain ⟨howner, hgiven⟩ := given_of_defineAccessor hd₁ hd₂ h₂.id_eq hgetter
        have hkept : d₃.Given m b := hgiven.of_appends h₃
        exact ⟨howner.trans hid₁, hkept⟩
      · intro m b hb hm
        rw [hb, hm] at hsetter
        obtain ⟨howner, hgiven⟩ := given_of_defineAccessor hd₂ hd₃ h₃.id_eq hsetter
        exact ⟨howner.trans hid₂, hgiven⟩

theorem given_of_replaceBody
    (horderly : w.Orderly) (hok : (replaceBody m b).exec w = (.ok remarks, w')) :
  ∃ d', w'.assembly.decl? m.owner = some d' ∧ d'.Given m b
  := by
  obtain ⟨d, method, target, result, hd, hmethod, hemit, rfl⟩ := exec_replaceBody_ok hok
  obtain ⟨heditable, hid⟩ := horderly.editable hd
  rw [← hid]
  refine ⟨d.setBody m.index result, ?_, { method with body := some result }, ?_, ?_⟩
  · rw [heditable.updated_eq (f := (·.setBody m.index result)) rfl, decl?_redefining,
      heditable.decl, Option.map_some, if_pos]
    rfl
  · rw [TypeDecl.setBody]
    rw [List.getElem?_modify, hmethod]
    simp
  · have hdecl := heditable.decl
    rw [hid] at hdecl
    exact fun _ => ⟨result, rfl, w, method, target, remarks, methodDecl_of_decl? hdecl hmethod, rfl,
      hemit⟩

end Build

/-- A method has the body that an operation has given it. -/
theorem Change.Gives.given
    {c : Change ρ} {m : MethodRef} {b : Body ρ} (h : c.Gives w m b) (horderly : w.Orderly) :
  ∃ d, (c.perform w).assembly.decl? m.owner = some d ∧ d.Given m b
  := by
  cases h with
  | @method owner name spec remarks w' h =>
      have hneeds : Build.Needs owner (Build.defineMethod owner name spec b .method) :=
        Build.needs_defineMethod owner name spec b .method
      cases hbuilding : w.assembly.building owner with
      | error e =>
          obtain ⟨e', hexec⟩ := hneeds hbuilding
          rw [hexec] at h
          cases h
      | ok d =>
          obtain ⟨hd, rfl⟩ := horderly.editable hbuilding
          obtain ⟨howner, d', hd', hgiven⟩ := Build.given_of_defineMethod hd h
          rw [Change.perform, h, howner]
          exact ⟨d', hd', hgiven⟩
  | getter hbodies hbody h hm =>
      obtain ⟨d', hd', hgetter, -⟩ := Build.given_of_defineProperty horderly hbodies h
      obtain ⟨howner, hgiven⟩ := hgetter m b hbody hm
      rw [Change.perform, h, howner]
      exact ⟨d', hd', hgiven⟩
  | setter hbodies hbody h hm =>
      obtain ⟨d', hd', -, hsetter⟩ := Build.given_of_defineProperty horderly hbodies h
      obtain ⟨howner, hgiven⟩ := hsetter m b hbody hm
      rw [Change.perform, h, howner]
      exact ⟨d', hd', hgiven⟩
  | replaces h =>
      rw [Change.perform, h]
      exact Build.given_of_replaceBody horderly h

/-! ## Bodies that are kept -/

/-- The host has the body of a method replaced. -/
def HostEvent.Replaces (m : MethodRef) : HostEvent ρ → Prop
  | .build (.change _ (.replaceBody m' _)) => m' = m
  | _ => False

/-- A type has gone on from a declaration, and some of its methods have kept their bodies. -/
structure TypeDecl.Carries (kept : Nat → Prop) (d d' : TypeDecl) : Prop where
  prolongs : d.Prolongs d'
  bodies : ∀ i m, kept i → d.methods[i]? = some m →
    ∃ m', d'.methods[i]? = some m' ∧ m'.head = m.head ∧ m'.body = m.body

namespace TypeDecl.Carries

variable {kept : Nat → Prop} {d d' d'' : TypeDecl}

theorem refl (kept : Nat → Prop) (d : TypeDecl) : d.Carries kept d :=
  ⟨.refl d, fun _ m _ hm => ⟨m, hm, rfl, rfl⟩⟩

theorem trans (h : d.Carries kept d') (h' : d'.Carries kept d'') : d.Carries kept d'' := by
  refine ⟨h.prolongs.trans h'.prolongs, fun i m hi hm => ?_⟩
  obtain ⟨m', hm', hhead, hbody⟩ := h.bodies i m hi hm
  obtain ⟨m'', hm'', hhead', hbody'⟩ := h'.bodies i m' hi hm'
  exact ⟨m'', hm'', hhead'.trans hhead, hbody'.trans hbody⟩

end TypeDecl.Carries

theorem TypeDecl.Appends.carries {d d' : TypeDecl} (h : d.Appends d') (kept : Nat → Prop) :
  d.Carries kept d'
  :=
  ⟨h.prolongs, fun _ m _ hm => ⟨m, TypeDecl.getElem?_of_isPrefix h.methods hm, rfl, rfl⟩⟩

theorem TypeDecl.carries_pushProperty (kept : Nat → Prop) (d : TypeDecl) (p : PropertyDecl) :
  d.Carries kept (d.pushProperty p)
  :=
  ⟨d.prolongs_pushProperty p, fun _ m _ hm => ⟨m, hm, rfl, rfl⟩⟩

namespace Project

variable {p : Project} {x : TypeId} {kept : Nat → Prop}

/-- A type goes on from its declaration, and methods whose bodies are not replaced keep them. -/
theorem Lawful.decl?_host
    (h : p.Lawful) (hd : p.decl? x = some d) (e : HostEvent ρ)
    (hkept : ∀ i, kept i → ¬ e.Replaces ⟨x, i⟩) :
  ∃ d', (p.host e).decl? x = some d' ∧ d.Carries kept d'
  := by
  cases e with
  | clear => exact ⟨d, hd, .refl kept d⟩
  | register fullName handle =>
      refine ⟨d, ?_, .refl kept d⟩
      rw [host]
      split <;> exact hd
  | build e =>
      cases e with
      | openUnit name => exact ⟨d, (decl?_open p name x).trans hd, .refl kept d⟩
      | change i c =>
          rw [Project.host, Project.apply]
          split
          · exact ⟨d, hd, .refl kept d⟩
          · next a ha =>
            have hsound := h.sound.put ha (c.redraws (h.sound.fresh ha))
            obtain ⟨j, b, hb, hbd⟩ := exists_of_decl? hd
            by_cases hij : j = i
            · subst hij
              rw [ha] at hb
              cases hb
              obtain ⟨d', hd', hrevises⟩ := c.revises (h.indexed.orderly h.sound ha) hbd
              refine ⟨d', hsound.decl?_eq (put_same ha) hd', hrevises.prolongs, ?_⟩
              intro k m hk hm
              apply hrevises.methods k m hm
              rintro body rfl
              apply hkept k hk
              rw [HostEvent.Replaces, TypeDecl.methodRef, Assembly.decl?_id hbd]
            · exact ⟨d, hsound.decl?_eq ((put_other hij).trans hb) hbd, .refl kept d⟩

/-- A declaration is what an operation on its unit has made of it. -/
theorem decl?_run_change
    (verify : Bool) (before : List (HostEvent ρ)) {i : Nat} {a : Assembly} {c : Change ρ}
    (ha : ((empty verify).run before).units[i]? = some a)
    (hd : (c.perform
      { session := ((empty verify).run before).session, assembly := a }).assembly.decl? x
        = some d) :
  ((empty verify).run (before ++ [.build (.change i c)])).decl? x = some d
  := by
  have hsound := (lawful_run verify before).sound
  rw [run_append]
  change (Project.apply _ (.change i c)).decl? x = some d
  rw [Project.apply, ha]
  exact (hsound.put ha (c.redraws (hsound.fresh ha))).decl?_eq (put_same ha) hd

/-- Throughout a session a type goes on from its declaration, and methods whose bodies are not
replaced keep them. -/
theorem decl?_run
    (verify : Bool) (before later : List (HostEvent ρ))
    (hd : ((empty verify).run before).decl? x = some d)
    (hkept : ∀ i, kept i → ∀ e ∈ later, ¬ e.Replaces ⟨x, i⟩) :
  ∃ d', ((empty verify).run (before ++ later)).decl? x = some d' ∧ d.Carries kept d'
  := by
  induction later generalizing before d with
  | nil =>
      rw [List.append_nil]
      exact ⟨d, hd, .refl kept d⟩
  | cons e later ih =>
      obtain ⟨d₁, hd₁, hcarries⟩ := (lawful_run verify before).decl?_host hd e
        fun i hi => hkept i hi e List.mem_cons_self
      have hone : ((empty verify).run (before ++ [e])).decl? x = some d₁ := by
        rw [run_append]
        exact hd₁
      obtain ⟨d', hd', hcarries'⟩ := ih (before ++ [e]) hone
        fun i hi e' he' => hkept i hi e' (List.mem_cons_of_mem e he')
      rw [List.append_assoc] at hd'
      exact ⟨d', hd', hcarries.trans hcarries'⟩

end Project

/-! ## Realized methods -/

namespace Workspace

theorem layoutMethods_bodies
    {ms : List MethodDecl} {l l' : MethodLayout} (h : ms.foldlM (w.layoutMethod d) l = .ok l') :
  l'.methods.map (·.body) = l.methods.map (·.body) ++ ms.map (·.body)
  := by
  induction ms generalizing l with
  | nil =>
      cases h
      simp
  | cons m ms ih =>
      rw [List.foldlM_cons] at h
      obtain ⟨l₁, hone, hrest⟩ := exists_of_bind_ok h
      obtain ⟨r, hr, hbody⟩ : ∃ r : RealizedMethod, l₁.methods = l.methods ++ [r]
          ∧ r.body = m.body := by
        rw [layoutMethod] at hone
        dsimp only at hone
        split at hone
        · cases hone
        split at hone
        · cases hone
        split at hone
        · obtain ⟨⟨slot, vtable⟩, -, hone⟩ := exists_of_bind_ok hone
          cases hone
          exact ⟨_, rfl, rfl⟩
        · cases hone
          exact ⟨_, rfl, rfl⟩
      rw [ih hrest, hr, List.map_append, List.map_singleton, hbody, List.append_assoc]
      rfl

end Workspace

/-- A realized type is what its unit declares, and its methods have the bodies that are declared. -/
structure RealizedType.Enacts (t : RealizedType) (d : TypeDecl) : Prop extends t.Embodies d where
  bodies : t.methods.map (·.body) = d.methods.map (·.body)

theorem Layered.enacts
    {verify : Bool} {decls : TypeId → Option TypeDecl} {ts : List RealizedType}
    (h : Layered verify decls ts) {t : RealizedType} (ht : t ∈ ts) :
  ∃ d, decls t.id = some d ∧ t.Enacts d
  := by
  induction h with
  | nil => cases ht
  | @snoc w t' d h hsettled hverify hd hbuilding hdecl hkept hlayout ih =>
      obtain ht | ht := List.mem_append.mp ht
      · exact ih ht
      · obtain rfl := List.mem_singleton.mp ht
        obtain ⟨d', base, hd', hmirrors, -⟩ := Workspace.layoutType_ok hlayout
        rw [hd] at hd'
        cases hd'
        obtain ⟨d', base', l, hd', -, hl, hmethods, -⟩ := Workspace.layoutType_methods hlayout
        rw [hd] at hd'
        cases hd'
        refine ⟨_, hdecl, ⟨?_, hmirrors.base, ?_⟩, ?_⟩
        · exact (Workspace.layoutType_profile hlayout hd :)
        · exact (Workspace.layoutType_interfaces hlayout hd :)
        · rw [hmethods, Workspace.layoutMethods_bodies hl]
          rfl

/-- A realized method is what its type declares. -/
theorem RealizedType.Enacts.method
    {t : RealizedType} (h : t.Enacts d) {i : Nat} {r : RealizedMethod}
    (hr : t.methods[i]? = some r) :
  ∃ m, d.methods[i]? = some m ∧ r.referent = m.referent ⟨t.id, i⟩ ∧ r.body = m.body
  := by
  have hid : t.id = d.id := congrArg Profile.id h.profile
  have hmethods : t.methods.map (·.referent)
      = d.methods.mapIdx fun i m => m.referent (d.methodRef i) :=
    congrArg Profile.methods h.profile
  have hreferent := congrArg (·[i]?) hmethods
  have hbody := congrArg (·[i]?) h.bodies
  simp only [List.getElem?_map, List.getElem?_mapIdx, hr, Option.map_some] at hreferent hbody
  obtain ⟨m, hm, hsame⟩ := Option.map_eq_some_iff.mp hreferent.symm
  rw [hm] at hbody
  refine ⟨m, hm, ?_, Option.some.inj hbody⟩
  rw [← hsame, TypeDecl.methodRef, hid]

/-- A method under its handle is what its type declares. -/
theorem Layered.methodIn
    {verify : Bool} {decls : TypeId → Option TypeDecl} {ts : List RealizedType}
    (h : Layered verify decls ts) {m : MethodRef} {r : RealizedMethod}
    (hr : methodIn ts m = some r) :
  ∃ d decl, decls m.owner = some d ∧ d.methods[m.index]? = some decl
    ∧ r.referent = decl.referent m ∧ r.body = decl.body
  := by
  obtain ⟨t, ht, hmethod⟩ := Option.bind_eq_some_iff.mp hr
  have hid : t.id = m.owner := by simpa using List.find?_some ht
  obtain ⟨d, hd, henacts⟩ := h.enacts (List.mem_of_find?_eq_some ht)
  obtain ⟨decl, hdecl, hreferent, hbody⟩ := henacts.method hmethod
  rw [hid] at hd hreferent
  exact ⟨d, decl, hd, hdecl, hreferent, hbody⟩

namespace Project

/-- Throughout a session a method has the body that has been emitted for it when it was given one
for the last time. -/
theorem body_of_history
    (verify : Bool) (before later : List (HostEvent ρ)) {i : Nat} {a : Assembly} {c : Change ρ}
    {m : MethodRef} {b : Body ρ} {r : RealizedMethod}
    (ha : ((empty verify).run before).units[i]? = some a)
    (hgives : c.Gives { session := ((empty verify).run before).session, assembly := a } m b)
    (hkept : ∀ e ∈ later, ¬ e.Replaces m)
    (hr : methodIn ((empty verify).run (before ++ .build (.change i c) :: later)).session.types m
      = some r)
    (habstract : r.isAbstract = false) :
  ∃ method result, r.referent = method.referent m ∧ r.body = some result
    ∧ Build.Emitted m b method result
  := by
  have hlawful := lawful_run verify before
  obtain ⟨d, hd, method, hmethod, hemits⟩ := hgives.given (hlawful.indexed.orderly hlawful.sound ha)
  have hstays : ∀ j, j = m.index → ∀ e ∈ later, ¬ e.Replaces ⟨m.owner, j⟩ :=
    fun j hj e he => hj ▸ hkept e he
  obtain ⟨d', hd', hcarries⟩ :=
    decl?_run verify _ later (decl?_run_change verify before ha hd) hstays
  rw [List.append_assoc, List.singleton_append] at hd'
  obtain ⟨method', hmethod', hhead, hbody⟩ := hcarries.bodies m.index method rfl hmethod
  obtain ⟨d'', decl, hd'', hdecl, hreferent, hsame⟩ := Layered.methodIn (stacked_run verify _) hr
  rw [hd'] at hd''
  cases hd''
  rw [hmethod'] at hdecl
  cases hdecl
  have hdeclared : method'.attributes = method.attributes :=
    (congrArg MethodDecl.attributes hhead :)
  have hattributes : r.attributes = method.attributes :=
    (Referent.method.inj hreferent).2.2.2.1.trans hdeclared
  obtain ⟨result, hresult, w, entry, target, remarks, hentry, hfirst, hemit⟩ :=
    hemits ((congrArg MethodAttributes.isAbstract hattributes).symm.trans habstract)
  refine ⟨method', result, hreferent, ?_, w, entry, target, remarks, hentry, ?_, hemit⟩
  · rw [hsame, hbody, hresult]
  · rw [hfirst, hhead]

end Project

end ManagedCode
