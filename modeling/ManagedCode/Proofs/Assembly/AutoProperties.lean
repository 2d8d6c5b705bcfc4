import ManagedCode.Proofs.Assembly.Bodies
import ManagedCode.Proofs.Emitter.Sealing

/-!
# Automatic properties

An automatic property of a class that can be written gets a field, and accessors whose bodies load
and store the field (`TypeDecl.AutoProperty`).  The type keeps it as long as the bodies of the
accessors are not replaced (`AutoProperty.carries`), and then finds it under its name.
-/

namespace ManagedCode

variable {ρ : Type} {w w' : Workspace} {d d' : TypeDecl}

/-! ## The bodies of accessors -/

namespace FieldRef

/-- The body that loads a field. -/
def loadingBody (f : FieldRef) (static : Bool) : MethodBody :=
  { instructions := if static then #[⟨.ldsfld, .field f⟩, ⟨.ret, .none⟩]
      else #[⟨.firstLdarg, .none⟩, ⟨.ldfld, .field f⟩, ⟨.ret, .none⟩]
    labels := #[]
    locals := #[]
    regions := []
    maxStack := 1 }

/-- The body that stores an argument into a field. -/
def storingBody (f : FieldRef) (static : Bool) : MethodBody :=
  { instructions := if static then
        #[⟨.firstLdarg, .none⟩, ⟨.stsfld, .field f⟩, ⟨.ret, .none⟩]
      else
        #[⟨.firstLdarg, .none⟩, ⟨.secondLdarg, .none⟩,
          ⟨.stfld, .field f⟩, ⟨.ret, .none⟩]
    labels := #[]
    locals := #[]
    regions := []
    maxStack := if static then 1 else 2 }

end FieldRef

namespace Build

variable {m : MethodRef} {method : MethodDecl}

/-- What a body writes into an emitter is sealed. -/
theorem emitBody_ofEmitter
    {write : Emitter → Emitter} {result : MethodBody} (target : Option Overridden)
    (hmethod : methodDecl w m = .ok method)
    (hsealed : ∀ name effectOf,
      ((write { method := name, returnsValue := method.returnType != .void }).sealBodyWith
        effectOf).1 = .ok result) :
  emitBody w m target (.ofEmitter write : Body ρ) = .ok (result, [])
  := by
  obtain ⟨d, hd, -⟩ := exists_of_bind_ok hmethod
  rw [emitBody]
  simp only [hd, hmethod, bind, Except.bind, Body.ofEmitter, Body.emit, hsealed]
  rfl

theorem emitBody_loading
    (target : Option Overridden) (hmethod : methodDecl w m = .ok method)
    (hreturns : method.returnType ≠ .void) (f : FieldRef) (static : Bool) :
  emitBody w m target (.loading f static : Body ρ) = .ok (f.loadingBody static, [])
  := by
  have hvalue : (method.returnType != .void) = true := bne_iff_ne.mpr hreturns
  apply emitBody_ofEmitter target hmethod
  intro name effectOf
  rw [hvalue]
  cases static with
  | true =>
      change (Emitter.sealBodyWith
        { method := name, returnsValue := true, instructions := (f.loadingBody true).instructions }
        effectOf).1 = _
      exact Emitter.sealBodyWith_of_relax_eq rfl rfl rfl rfl
  | false =>
      change (Emitter.sealBodyWith
        { method := name, returnsValue := true, instructions := (f.loadingBody false).instructions }
        effectOf).1 = _
      exact Emitter.sealBodyWith_of_relax_eq rfl rfl rfl rfl

theorem emitBody_storing
    (target : Option Overridden) (hmethod : methodDecl w m = .ok method)
    (hreturns : method.returnType = .void) (f : FieldRef) (static : Bool) :
  emitBody w m target (.storing f static : Body ρ) = .ok (f.storingBody static, [])
  := by
  have hvalue : (method.returnType != .void) = false := bne_eq_false_iff_eq.mpr hreturns
  apply emitBody_ofEmitter target hmethod
  intro name effectOf
  rw [hvalue]
  cases static with
  | true =>
      change (Emitter.sealBodyWith
        { method := name, instructions := (f.storingBody true).instructions }
        effectOf).1 = _
      exact Emitter.sealBodyWith_of_relax_eq rfl rfl rfl rfl
  | false =>
      change (Emitter.sealBodyWith
        { method := name, instructions := (f.storingBody false).instructions }
        effectOf).1 = _
      exact Emitter.sealBodyWith_of_relax_eq rfl rfl rfl rfl

end Build

/-! ## Properties as they are declared -/

/-- A type has a method as it has been asked for.  A method that overrides and implements nothing
has nothing from elsewhere. -/
def TypeDecl.Serves (d : TypeDecl) (i : Nat) (spec : MethodSpec) (kind : MethodKind)
    (body : MethodBody) : Prop :=
  ∃ m, d.methods[i]? = some m ∧ m.params = spec.params.getD []
    ∧ m.returnType = spec.returnType.getD .void ∧ (m.isAbstract = false → m.body = some body)
    ∧ (m.overrides = none → m.baseSlot = none → m.genericParams = spec.genericParams
      ∧ m.attributes = spec.declaredAttributes d.handle.kind kind)

/-- A type has a property with a field behind it, which the accessors load and store. -/
structure TypeDecl.AutoProperty (d : TypeDecl) (name : String) (t : TypeRef) (spec : PropertySpec ρ)
    (f g s : Nat) : Prop where
  isClass : d.handle.kind = .classType
  property : ∃ p, d.properties.find? (·.name == name) = some p ∧ p.getter = some g
    ∧ p.setter = some s
  field : ∃ fd, d.fields[f]? = some fd ∧ fd.type = t ∧ fd.attributes.isLiteral = false
    ∧ fd.isStatic = (spec.modifier == .isStatic)
  getter : d.Serves g (spec.getterSpec t) .getter
    ((d.fieldRef f).loadingBody (spec.modifier == .isStatic))
  setter : d.Serves s (spec.setterSpec t) .setter
    ((d.fieldRef f).storingBody (spec.modifier == .isStatic))

namespace TypeDecl

variable {kept : Nat → Prop} {name : String} {t : TypeRef} {spec : PropertySpec ρ} {f g s i : Nat}

theorem find?_of_isPrefix
    {α : Type} {l l' : List α} {p : α → Bool} {x : α} (hinitial : l <+: l')
    (hx : l.find? p = some x) :
  l'.find? p = some x
  := by
  obtain ⟨rest, rfl⟩ := hinitial
  rw [List.find?_append, hx]
  rfl

theorem Prolongs.handle_eq (h : d.Prolongs d') : d'.handle = d.handle :=
  (congrArg TypeDecl.handle h.place :)

theorem Serves.carries
    {mspec : MethodSpec} {kind : MethodKind} {body : MethodBody} (h : d.Serves i mspec kind body)
    (hcarries : d.Carries kept d') (hi : kept i) :
  d'.Serves i mspec kind body
  := by
  obtain ⟨m, hm, hparams, hreturns, hbody, hplain⟩ := h
  obtain ⟨m', hm', hhead, hsame⟩ := hcarries.bodies i m hi hm
  have hattributes : m'.attributes = m.attributes := (congrArg MethodDecl.attributes hhead :)
  have hoverrides : m'.overrides = m.overrides := (congrArg MethodDecl.overrides hhead :)
  have hslot : m'.baseSlot = m.baseSlot := (congrArg MethodDecl.baseSlot hhead :)
  have hgeneric : m'.genericParams = m.genericParams := (congrArg MethodDecl.genericParams hhead :)
  refine ⟨m', hm', ?_, ?_, ?_, ?_⟩
  · exact (congrArg MethodDecl.params hhead :).trans hparams
  · exact (congrArg MethodDecl.returnType hhead :).trans hreturns
  · rw [hsame, MethodDecl.isAbstract, hattributes]
    exact hbody
  · rw [hoverrides, hslot, hgeneric, hattributes, hcarries.prolongs.handle_eq]
    exact hplain

/-- A type keeps an automatic property whose accessors keep their bodies. -/
theorem AutoProperty.carries
    (h : d.AutoProperty name t spec f g s) (hcarries : d.Carries kept d') (hg : kept g)
    (hs : kept s) :
  d'.AutoProperty name t spec f g s
  := by
  have hfield : d'.fieldRef f = d.fieldRef f := by
    rw [fieldRef, hcarries.prolongs.id_eq, fieldRef]
  constructor
  · rw [hcarries.prolongs.handle_eq]
    exact h.isClass
  · obtain ⟨p, hp, haccessors⟩ := h.property
    exact ⟨p, find?_of_isPrefix hcarries.prolongs.properties hp, haccessors⟩
  · obtain ⟨fd, hfd, hrest⟩ := h.field
    exact ⟨fd, getElem?_of_isPrefix hcarries.prolongs.fields hfd, hrest⟩
  · rw [hfield]
    exact h.getter.carries hcarries hg
  · rw [hfield]
    exact h.setter.carries hcarries hs

end TypeDecl

namespace Build

open Workspace

variable {name : String} {t : TypeRef} {spec : PropertySpec ρ} {remarks : List ρ}

/-- A field that is defined in a class stands behind the other ones. -/
theorem exec_defineField_class
    {fspec : FieldSpec} {f : Option FieldRef} (h : w.Editable d)
    (hclass : d.handle.kind = .classType)
    (hok : (defineField d.id name t fspec).exec w = (.ok f, w')) :
  f = some (d.fieldRef d.fields.length) ∧ w' = w.redefining (d.pushField
    { name := name
      type := t
      attributes :=
        { FieldAttributes.of fspec.visibility fspec.modifier with
          hasDefault := fspec.default.isSome }
      constant := fspec.default })
  := by
  rw [defineField] at hok
  rw [exec_ite] at hok
  split at hok
  · cases hok
  · rw [exec_bind, exec_building h] at hok
    simp only [hclass] at hok
    rw [exec_ite] at hok
    split at hok
    · obtain ⟨e, hrefused⟩ := refusing_invalid (α := Option FieldRef) d.id _ w
      rw [hrefused] at hok
      cases hok
    · obtain ⟨f', w₁, hpush, hok⟩ := exists_of_exec_bind_ok hok
      obtain ⟨e, hexec⟩ | hexec := exec_pushField h _
      · rw [hexec] at hpush
        cases hpush
      · rw [hexec] at hpush
        cases hpush
        cases hok
        exact ⟨rfl, rfl⟩

/-- What has become of a type tells what it has been redefined by. -/
theorem eq_of_redefining
    {d₁ d₂ : TypeDecl} (h : w.Editable d) (hsame : w.redefining d₁ = w.redefining d₂)
    (h₁ : d₁.id = d.id) (h₂ : d₂.id = d.id) :
  d₁ = d₂
  := by
  have hdecl := congrArg (fun w => w.assembly.decl? d.id) hsame
  simp only [decl?_redefining, h.decl, Option.map_some, h₁, h₂, if_true] at hdecl
  exact Option.some.inj hdecl

/-- The field behind a property. -/
def backingField (name : String) (t : TypeRef) (spec : PropertySpec ρ) : FieldDecl :=
  { name := backingFieldName name
    type := t
    attributes := .of .isPrivate (if spec.modifier == .isStatic then .isStatic else .standard)
    constant := none }

/-- An automatic property of a class that can be written gets a field, and accessors that load and
store it. -/
theorem exec_accessorBodies_auto
    {bodies : AccessorBodies ρ} (h : w.Editable d) (hclass : d.handle.kind = .classType)
    (hauto : spec.accessors = .auto true)
    (hok : (accessorBodies d.id name t spec).exec w = (.ok bodies, w')) :
  w' = w.redefining (d.pushField (backingField name t spec))
    ∧ bodies = ⟨some (.loading (d.fieldRef d.fields.length) (spec.modifier == .isStatic)),
        some (.storing (d.fieldRef d.fields.length) (spec.modifier == .isStatic)),
        some (d.fieldRef d.fields.length)⟩
  := by
  have hkind : d.handle.kind.isInterface = false := by
    rw [hclass]
    rfl
  rw [accessorBodies] at hok
  rw [exec_bind, exec_building h] at hok
  simp only [hauto, hkind, Bool.false_eq_true, if_false] at hok
  obtain ⟨f, w₁, hfield, hok⟩ := exists_of_exec_bind_ok hok
  obtain ⟨rfl, rfl⟩ := exec_defineField_class h hclass hfield
  cases hok
  refine ⟨?_, rfl⟩
  rw [backingField]
  cases spec.modifier <;> rfl

theorem completeSignature_given
    {mspec : MethodSpec} {params : List Parameter} (hparams : mspec.params = some params)
    (hreturns : mspec.returnType = some t) (target : Option Overridden) :
  (completeSignature mspec target).params = params
    ∧ (completeSignature mspec target).returnType = t
  := by
  cases target <;>
  · rw [completeSignature, hparams, hreturns]
    exact ⟨rfl, rfl⟩

/-- A method whose signature is given in full is declared with it. -/
theorem declaration_given
    {mspec : MethodSpec} {kind : MethodKind} {entry : MethodDecl} {target : Option Overridden}
    {params : List Parameter} (h : w.Editable d) (hparams : mspec.params = some params)
    (hreturns : mspec.returnType = some t)
    (hdeclared : w.declaration d.id name mspec kind = .ok (entry, target)) :
  entry.params = params ∧ entry.returnType = t
    ∧ (entry.overrides = none → entry.baseSlot = none → entry.genericParams = mspec.genericParams
      ∧ entry.attributes = mspec.declaredAttributes d.handle.kind kind)
  := by
  obtain ⟨d', hd', rfl, -⟩ := declaration_ok hdeclared
  rw [h.building_eq] at hd'
  cases hd'
  obtain ⟨hsame, htype⟩ := completeSignature_given hparams hreturns target
  refine ⟨hsame, htype, ?_⟩
  cases target with
  | none => exact fun _ _ => ⟨rfl, rfl⟩
  | some target =>
      obtain ⟨method, origin, signature⟩ := target
      cases origin with
      | baseType => exact fun _ => nofun
      | interface => exact nofun

/-- A method that is defined is as it has been asked for, with the body that is emitted. -/
theorem serves_of_defineMethod
    {mspec : MethodSpec} {kind : MethodKind} {body : Body ρ} {m : MethodRef} {result : MethodBody}
    {params : List Parameter} (h : w.Editable d) (hparams : mspec.params = some params)
    (hreturns : mspec.returnType = some t)
    (hemit : ∀ {w : Workspace} {m : MethodRef} {method : MethodDecl} (target : Option Overridden),
      methodDecl w m = .ok method → method.returnType = t →
        emitBody w m target body = .ok (result, []))
    (hok : (defineMethod d.id name mspec body kind).exec w = (.ok (m, remarks), w')) :
  ∃ method, m = d.methodRef d.methods.length ∧ w' = w.redefining (d.pushMethod method)
    ∧ (d.pushMethod method).Serves d.methods.length mspec kind result
  := by
  obtain ⟨entry, target, method, hdeclared, rfl, rfl, hcompletes⟩ := exec_defineMethod_ok h hok
  obtain ⟨hgiven, htype, hplain⟩ := declaration_given h hparams hreturns hdeclared
  have hreserved : (w.redefining (d.pushMethod entry)).Editable (d.pushMethod entry) :=
    h.redefining rfl rfl (h.self_indexed.pushMethod entry)
  have hattributes : method.attributes = entry.attributes :=
    (congrArg MethodDecl.attributes hcompletes.head :)
  have hoverrides : method.overrides = entry.overrides :=
    (congrArg MethodDecl.overrides hcompletes.head :)
  have hslot : method.baseSlot = entry.baseSlot :=
    (congrArg MethodDecl.baseSlot hcompletes.head :)
  have hgeneric : method.genericParams = entry.genericParams :=
    (congrArg MethodDecl.genericParams hcompletes.head :)
  refine ⟨method, rfl, rfl, method, getElem?_pushMethod d method, ?_, ?_, ?_, ?_⟩
  · rw [hparams]
    exact (congrArg MethodDecl.params hcompletes.head :).trans hgiven
  · rw [hreturns]
    exact (congrArg MethodDecl.returnType hcompletes.head :).trans htype
  · intro habstract
    rw [MethodDecl.isAbstract, hattributes] at habstract
    obtain ⟨result', remarks', hbody, hemitted⟩ := hcompletes.emitted habstract
    rw [hemit target (methodDecl_of_decl? hreserved.decl (getElem?_pushMethod d entry)) htype]
      at hemitted
    cases hemitted
    exact hbody
  · rw [hoverrides, hslot, hgeneric, hattributes]
    exact hplain

/-- Only a property of a class has a field behind it. -/
theorem isClass_of_backingField
    {bodies : AccessorBodies ρ} {f : FieldRef} (h : w.Editable d)
    (henum : d.handle.kind.isEnum = false) (hauto : spec.accessors = .auto true)
    (hfield : bodies.field = some f)
    (hok : (accessorBodies d.id name t spec).exec w = (.ok bodies, w')) :
  d.handle.kind = .classType
  := by
  rw [accessorBodies] at hok
  rw [exec_bind, exec_building h] at hok
  cases hkind : d.handle.kind with
  | classType => rfl
  | interfaceType =>
      have hinterface : d.handle.kind.isInterface = true := by
        rw [hkind]
        rfl
      simp only [hauto, hinterface, if_true] at hok
      cases hok
      cases hfield
  | enumType p =>
      rw [hkind] at henum
      cases henum

/-- An automatic property that is defined is one from then on. -/
theorem autoProperty_of_addProperty
    {k : Nat} {g s : MethodRef} {f : FieldRef} (hd : w.Editable d)
    (hclass : d.handle.kind = .classType) (hauto : spec.accessors = .auto true) (hvoid : t ≠ .void)
    (hfree : d.properties.any (·.name == name) = false)
    (hok : (addProperty d.id name t spec).exec w
      = (.ok (⟨d.id, k, some g, some s, some f⟩, remarks), w')) :
  g.owner = d.id ∧ s.owner = d.id ∧ f.owner = d.id
    ∧ ∃ d', w'.assembly.decl? d.id = some d' ∧ d'.AutoProperty name t spec f.index g.index s.index
  := by
  obtain ⟨bodies, d₁, d₂, d₃, first, second, hparts, hd₁, hid₁, hgetter, hd₂, h₂, hsetter, hd₃,
    h₃, hfield, hw'⟩ := exec_addProperty_ok hd hok
  obtain ⟨hfirst, rfl⟩ := exec_accessorBodies_auto hd hclass hauto hparts
  cases hfield
  obtain rfl := eq_of_redefining hd hfirst hid₁ rfl
  have hid₂ : d₂.id = d.id := h₂.id_eq
  have hid₃ : d₃.id = d.id := h₃.id_eq.trans hid₂
  obtain ⟨g', ⟨⟩, hgetter⟩ := exec_defineAccessor_some hgetter
  obtain ⟨getter, rfl, hsecond, hserves⟩ := serves_of_defineMethod hd₁ rfl rfl
    (fun target hmethod htype => emitBody_loading target hmethod (htype ▸ hvoid) _ _) hgetter
  obtain rfl := eq_of_redefining hd (hsecond.trans (redefining_redefining rfl)) hid₂ rfl
  obtain ⟨s', ⟨⟩, hsetter⟩ := exec_defineAccessor_some hsetter
  obtain ⟨setter, rfl, hthird, hserves'⟩ := serves_of_defineMethod hd₂ rfl rfl
    (fun target hmethod htype => emitBody_storing target hmethod htype _ _) hsetter
  obtain rfl := eq_of_redefining hd (hthird.trans (redefining_redefining rfl)) hid₃ rfl
  let p : PropertyDecl :=
    { name := name
      type := t
      getter := some d.methods.length
      setter := some (d.methods ++ [getter]).length
      backingField := some d.fields.length }
  have hlast : w'.assembly.decl? d.id = some ((((d.pushField (backingField name t spec)).pushMethod
      getter).pushMethod setter).pushProperty p) := by
    rw [hw', decl?_redefining, hd.decl, Option.map_some, if_pos]
    · rfl
    · rfl
  have hlater := TypeDecl.carries_pushProperty (fun _ => True)
    (((d.pushField (backingField name t spec)).pushMethod getter).pushMethod setter) p
  refine ⟨rfl, rfl, rfl, _, hlast, hclass, ?_, ?_, ?_, ?_⟩
  · refine ⟨p, ?_, rfl, rfl⟩
    change (d.properties ++ [p]).find? (·.name == name) = some p
    rw [List.find?_append, List.find?_eq_none.mpr, Option.none_or, List.find?_singleton,
      if_pos (beq_self_eq_true name)]
    simpa using hfree
  · refine ⟨backingField name t spec, List.getElem?_concat_length .., rfl, ?_, ?_⟩
    · rw [backingField]
      cases spec.modifier <;> rfl
    · rw [backingField]
      cases spec.modifier <;> rfl
  · exact hserves.carries ((h₃.carries _).trans hlater) trivial
  · exact hserves'.carries hlater trivial

/-- An automatic property that is defined is one from then on. -/
theorem autoProperty_of_defineProperty
    {id : TypeId} {k : Nat} {g s : MethodRef} {f : FieldRef} (horderly : w.Orderly)
    (hauto : spec.accessors = .auto true)
    (hok : (defineProperty id name t spec).exec w
      = (.ok (⟨id, k, some g, some s, some f⟩, remarks), w')) :
  g.owner = id ∧ s.owner = id ∧ f.owner = id ∧ t ≠ .void
    ∧ ∃ d, w'.assembly.decl? id = some d ∧ d.AutoProperty name t spec f.index g.index s.index
  := by
  cases hbuilding : w.assembly.building id with
  | error e =>
      have hneeds : Needs id (defineProperty id name t spec) := needs_guard (needs_building _)
      obtain ⟨e', hexec⟩ := hneeds hbuilding
      rw [hexec] at hok
      cases hok
  | ok d =>
      obtain ⟨hd, rfl⟩ := horderly.editable hbuilding
      obtain ⟨hadd, henum, hvoid, hfree⟩ := addProperty_of_defineProperty hd hok
      have hclass : d.handle.kind = .classType := by
        obtain ⟨bodies, d₁, d₂, d₃, first, second, hparts, -, -, -, -, -, -, -, -, hfield, -⟩ :=
          exec_addProperty_ok hd hadd
        exact isClass_of_backingField hd henum hauto hfield.symm hparts
      obtain ⟨hg, hs, hf, hdeclared⟩ := autoProperty_of_addProperty hd hclass hauto hvoid hfree hadd
      exact ⟨hg, hs, hf, hvoid, hdeclared⟩

end Build

/-- A class keeps an automatic property throughout a session, unless the bodies of the accessors
are replaced. -/
theorem Project.autoProperty_of_history
    (verify : Bool) (before later : List (HostEvent ρ)) {i k : Nat} {a : Assembly} {c : TypeId}
    {name : String} {t : TypeRef} {spec : PropertySpec ρ} {g s : MethodRef} {f : FieldRef}
    {remarks : List ρ} (ha : ((empty verify).run before).units[i]? = some a)
    (hauto : spec.accessors = .auto true)
    (hdefine : (Build.defineProperty c name t spec).exec
        { session := ((empty verify).run before).session, assembly := a }
      = (.ok (⟨c, k, some g, some s, some f⟩, remarks), w'))
    (hkept : ∀ e ∈ later, ¬ e.Replaces g ∧ ¬ e.Replaces s) :
  g.owner = c ∧ s.owner = c ∧ f.owner = c ∧ t ≠ .void
    ∧ ∃ d, ((empty verify).run (before ++ .build (.change i (.defineProperty c name t spec))
        :: later)).decl? c = some d
      ∧ d.AutoProperty name t spec f.index g.index s.index
  := by
  have hlawful := lawful_run verify before
  obtain ⟨hg, hs, hf, hvoid, d, hd, hproperty⟩ :=
    Build.autoProperty_of_defineProperty (hlawful.indexed.orderly hlawful.sound ha) hauto hdefine
  refine ⟨hg, hs, hf, hvoid, ?_⟩
  have hperform : ((Change.defineProperty c name t spec).perform
      { session := ((empty verify).run before).session, assembly := a }).assembly.decl? c
        = some d := by
    rw [Change.perform, hdefine]
    exact hd
  have hstays : ∀ j, j = g.index ∨ j = s.index → ∀ e ∈ later, ¬ e.Replaces ⟨c, j⟩ := by
    rintro j (rfl | rfl) e he
    · exact hg ▸ (hkept e he).1
    · exact hs ▸ (hkept e he).2
  obtain ⟨d', hd', hcarries⟩ :=
    decl?_run verify _ later (decl?_run_change verify before ha hperform) hstays
  rw [List.append_assoc, List.singleton_append] at hd'
  exact ⟨d', hd', hproperty.carries hcarries (.inl rfl) (.inr rfl)⟩

end ManagedCode
