import ManagedCode.Proofs.Assembly.Handles

/-!
# What an operation leaves of a type

Whatever an operation does, a type goes on from what it was.  A method keeps its body unless the
operation replaces it, and an enumeration keeps its literals unless the operation defines one: it
gets no other members (`Change.revises`).
-/

namespace ManagedCode

variable {ρ α : Type} {w : Workspace} {d d' : TypeDecl}

/-- What a type has become by an operation. -/
structure Change.Revises (c : Change ρ) (d d' : TypeDecl) : Prop where
  prolongs : d.Prolongs d'
  methods : ∀ i m, d.methods[i]? = some m → (∀ body, c ≠ .replaceBody (d.methodRef i) body) →
    ∃ m', d'.methods[i]? = some m' ∧ m'.head = m.head ∧ m'.body = m.body
  literals : d.handle.kind.isEnum = true → (∀ name value, c ≠ .defineLiteral d.id name value) →
    d'.fields = d.fields ∧ d'.nextLiteral = d.nextLiteral

namespace Change.Revises

variable {c : Change ρ}

/-- An operation may leave a declaration as it is. -/
theorem refl (c : Change ρ) (d : TypeDecl) : c.Revises d d :=
  ⟨.refl d, fun _ m hm _ => ⟨m, hm, rfl, rfl⟩, fun _ _ => ⟨rfl, rfl⟩⟩

/-- Nothing but what stands around the members has changed. -/
theorem of_members
    (hplace : d'.place = d.place) (hfields : d'.fields = d.fields) (hmethods : d'.methods = d.methods)
    (hproperties : d'.properties = d.properties) (hnext : d'.nextLiteral = d.nextLiteral) :
  c.Revises d d'
  := by
  refine ⟨⟨hplace, ?_, ?_, ?_⟩, fun i m hm _ => ⟨m, ?_, rfl, rfl⟩, fun _ _ => ⟨hfields, hnext⟩⟩
  · rw [hfields]
  · rw [hmethods]
  · rw [hproperties]
  · rw [hmethods, hm]

/-- Members have been appended to a type that is no enumeration. -/
theorem of_appends (h : d.Appends d') (henum : d.handle.kind.isEnum = false) : c.Revises d d' := by
  refine ⟨h.prolongs, fun i m hm _ => ⟨m, ?_, rfl, rfl⟩, fun hkind => ?_⟩
  · obtain ⟨added, hadded⟩ := h.methods
    obtain ⟨hi, -⟩ := List.getElem?_eq_some_iff.mp hm
    rw [← hadded, List.getElem?_append_left hi, hm]
  · rw [henum] at hkind
    cases hkind

end Change.Revises

/-! ## Types that are open -/

namespace Workspace

variable {c : Change ρ} {e e' : TypeDecl} {x : TypeId}

/-- One type is declared anew, and the others stay. -/
theorem Editable.revises_redefining
    (h : w.Editable e) (hrevises : c.Revises e e') (hd : w.assembly.decl? x = some d) :
  ∃ d', (w.redefining e').assembly.decl? x = some d' ∧ c.Revises d d'
  := by
  rw [decl?_redefining, hd, Option.map_some]
  split
  · next hx =>
    have hsame := h.decl
    rw [← hrevises.prolongs.id_eq, ← hx, hd] at hsame
    cases hsame
    exact ⟨e', rfl, hrevises⟩
  · exact ⟨d, rfl, .refl c d⟩

/-- One open type is changed, and the others stay. -/
theorem Orderly.revises_updated
    (h : w.Orderly) {id : TypeId} {f : TypeDecl → TypeDecl} (he : w.assembly.building id = .ok e)
    (hrevises : c.Revises e (f e)) (hd : w.assembly.decl? x = some d) :
  ∃ d', (w.updated id f).assembly.decl? x = some d' ∧ c.Revises d d'
  := by
  obtain ⟨heditable, rfl⟩ := h.editable he
  rw [heditable.updated_eq hrevises.prolongs.id_eq]
  apply heditable.revises_redefining hrevises hd

end Workspace

namespace Build

open Workspace

variable {id x : TypeId} {b : Build α}

/-- An operation that an enumeration refuses. -/
def NotOfEnums (id : TypeId) (b : Build α) : Prop :=
  ∀ {w : Workspace} {d : TypeDecl}, w.Editable d → d.id = id → d.handle.kind.isEnum = true →
    ∃ e, b.exec w = (.error e, w)

/-- A field is refused on an enumeration. -/
theorem notOfEnums_defineField (id : TypeId) (name : String) (t : TypeRef) (spec : FieldSpec) :
  NotOfEnums id (defineField id name t spec)
  := by
  rintro w d h rfl henum
  rw [defineField]
  rw [exec_ite]
  split
  · exact ⟨_, rfl⟩
  · rw [exec_bind, exec_building h]
    dsimp only
    split
    · next hkind =>
      rw [hkind] at henum
      cases henum
    · exact refusing_invalid _ _ w
    · next hkind =>
      rw [hkind] at henum
      cases henum

/-- A method is refused on an enumeration. -/
theorem notOfEnums_defineMethod
    (id : TypeId) (name : String) (spec : MethodSpec) (body : Body ρ) (kind : MethodKind) :
  NotOfEnums id (defineMethod id name spec body kind)
  := by
  rintro w d h rfl henum
  rw [defineMethod]
  rw [exec_bind, exec_ask]
  cases hdeclared : w.declaration d.id name spec kind with
  | error e => exact ⟨e, rfl⟩
  | ok declared =>
      rw [declaration] at hdeclared
      dsimp only at hdeclared
      obtain ⟨-, hdeclared⟩ := of_guard_ok hdeclared
      obtain ⟨d', hd', hdeclared⟩ := exists_of_bind_ok hdeclared
      rw [h.building_eq] at hd'
      cases hd'
      obtain ⟨hnot, -⟩ := of_guard_ok hdeclared
      cases hnot henum

/-- A constructor is refused on an enumeration. -/
theorem notOfEnums_defineConstructor (id : TypeId) (spec : ConstructorSpec) (body : Body ρ) :
  NotOfEnums id (defineConstructor id spec body)
  := by
  rintro w d h rfl henum
  rw [defineConstructor]
  rw [exec_bind, exec_building h]
  dsimp only
  rw [exec_ite, if_pos]
  · exact ⟨_, rfl⟩
  · cases hkind : d.handle.kind with
    | classType =>
        rw [hkind] at henum
        cases henum
    | interfaceType => rfl
    | enumType p => rfl

/-- A property is refused on an enumeration. -/
theorem notOfEnums_defineProperty
    (id : TypeId) (name : String) (t : TypeRef) (spec : PropertySpec ρ) :
  NotOfEnums id (defineProperty id name t spec)
  := by
  rintro w d h rfl henum
  rw [defineProperty]
  rw [exec_ite]
  split
  · exact ⟨_, rfl⟩
  · rw [exec_bind, exec_building h]
    dsimp only
    rw [exec_ite, if_pos henum]
    exact refusing_invalid _ _ w

/-- An operation on one type that an enumeration refuses. -/
theorem revises_of_open
    (c : Change ρ) (horderly : w.Orderly) (hneeds : Needs id b) (henums : NotOfEnums id b)
    (hopen : ∀ e, w.Editable e → e.id = id → (∃ error, b.exec w = (.error error, w))
      ∨ ∃ e', (b.exec w).2 = w.redefining e' ∧ (e.handle.kind.isEnum = false → c.Revises e e'))
    (hd : w.assembly.decl? x = some d) :
  ∃ d', (b.exec w).2.assembly.decl? x = some d' ∧ c.Revises d d'
  := by
  cases he : w.assembly.building id with
  | error error =>
      obtain ⟨error', hexec⟩ := hneeds he
      rw [hexec]
      exact ⟨d, hd, .refl c d⟩
  | ok e =>
      obtain ⟨h, hid⟩ := horderly.editable he
      cases henum : e.handle.kind.isEnum with
      | true =>
          obtain ⟨error, hexec⟩ := henums h hid henum
          rw [hexec]
          exact ⟨d, hd, .refl c d⟩
      | false =>
          obtain ⟨error, hexec⟩ | ⟨e', hexec, hrevises⟩ := hopen e h hid
          · rw [hexec]
            exact ⟨d, hd, .refl c d⟩
          · rw [hexec]
            exact h.revises_redefining (hrevises henum) hd

/-- An operation that adds members leaves the declaration revised as its kind allows. -/
theorem Adding.revises
    {handles : α → List Handle} (hb : Adding id handles b) (c : Change ρ) (horderly : w.Orderly)
    (hneeds : Needs id b) (henums : NotOfEnums id b) (hd : w.assembly.decl? x = some d) :
  ∃ d', (b.exec w).2.assembly.decl? x = some d' ∧ c.Revises d d'
  := by
  apply revises_of_open c horderly hneeds henums _ hd
  intro e h hid
  obtain hrefused | ⟨a, e', hexec, happends, -⟩ := hb h hid
  · left
    exact hrefused
  · right
    exact ⟨e', congrArg Prod.snd hexec, Change.Revises.of_appends happends⟩

/-- A property comes behind its parts. -/
theorem revises_defineProperty
    (horderly : w.Orderly) (name : String) (t : TypeRef) (spec : PropertySpec ρ)
    (hd : w.assembly.decl? x = some d) :
  ∃ d', ((defineProperty id name t spec).exec w).2.assembly.decl? x = some d'
    ∧ (Change.defineProperty id name t spec).Revises d d'
  := by
  apply revises_of_open _ horderly _ (notOfEnums_defineProperty id name t spec) _ hd
  · exact needs_guard (needs_building _)
  · rintro e h rfl
    obtain hrefused | ⟨r, remarks, p, e', hexec, happends, -⟩ := exec_defineProperty h name t spec
    · left
      exact hrefused
    · right
      refine ⟨_, congrArg Prod.snd hexec, fun henum => ?_⟩
      have hparts := Change.Revises.of_appends (c := .defineProperty e.id name t spec) happends henum
      refine ⟨hparts.prolongs.trans (e'.prolongs_pushProperty p), hparts.methods, fun hkind => ?_⟩
      rw [henum] at hkind
      cases hkind

/-- A literal adds a field. -/
theorem revises_defineLiteral
    (horderly : w.Orderly) (name : String) (value : Option Int64)
    (hd : w.assembly.decl? x = some d) :
  ∃ d', ((defineLiteral id name value).exec w).2.assembly.decl? x = some d'
    ∧ (Change.defineLiteral id name value : Change ρ).Revises d d'
  := by
  have hneeds : Needs id (defineLiteral id name value) := needs_guard (needs_building _)
  cases he : w.assembly.building id with
  | error error =>
      obtain ⟨error', hexec⟩ := hneeds he
      rw [hexec]
      exact ⟨d, hd, .refl _ d⟩
  | ok e =>
      obtain ⟨h, rfl⟩ := horderly.editable he
      obtain ⟨error, hexec⟩ | ⟨f, next, hexec⟩ := exec_defineLiteral h name value
      · rw [hexec]
        exact ⟨d, hd, .refl _ d⟩
      · have happends := e.appends_pushField f
        have hrevises : (Change.defineLiteral e.id name value : Change ρ).Revises e
            { e.pushField f with nextLiteral := next } := by
          refine ⟨⟨rfl, happends.fields, happends.prolongs.methods, List.prefix_rfl⟩,
            fun i m hm _ => ⟨m, hm, rfl, rfl⟩, fun _ hother => ?_⟩
          cases hother name value rfl
        rw [hexec]
        exact h.revises_redefining hrevises hd

/-- A new body changes one method. -/
theorem revises_replaceBody
    (horderly : w.Orderly) (m : MethodRef) (body : Body ρ) (hd : w.assembly.decl? x = some d) :
  ∃ d', ((replaceBody m body).exec w).2.assembly.decl? x = some d'
    ∧ (Change.replaceBody m body).Revises d d'
  := by
  obtain ⟨error, hexec⟩ | ⟨e, result, remarks, he, hexec⟩ := exec_replaceBody m body w
  · rw [hexec]
    exact ⟨d, hd, .refl _ d⟩
  · have hrevises : (Change.replaceBody m body).Revises e (e.setBody m.index result) := by
      refine ⟨e.prolongs_modify m.index fun _ => rfl, fun i method hmethod hother => ?_,
        fun _ _ => ⟨rfl, rfl⟩⟩
      refine ⟨method, ?_, rfl, rfl⟩
      have hne : m.index ≠ i := by
        rintro rfl
        apply hother body
        obtain ⟨-, hid⟩ := horderly.editable he
        rw [TypeDecl.methodRef, hid]
      rw [TypeDecl.setBody]
      rw [List.getElem?_modify, hmethod]
      simp only [if_neg hne, Option.map_eq_map, Option.map_some]
    rw [hexec]
    exact horderly.revises_updated he hrevises hd

/-- An attribute of a method changes that method. -/
theorem revises_setMethodAttribute
    (horderly : w.Orderly) (m : MethodRef) (custom : CustomAttribute)
    (hd : w.assembly.decl? x = some d) :
  ∃ d', ((setMethodAttribute m custom).exec w).2.assembly.decl? x = some d'
    ∧ (Change.setMethodAttribute m custom : Change ρ).Revises d d'
  := by
  rw [setMethodAttribute]
  rw [exec_bind]
  obtain ⟨error, hexec⟩ | ⟨e, method, he, hexec⟩ := exec_buildingMethod m w
  · rw [hexec]
    exact ⟨d, hd, .refl _ d⟩
  · have hrevises : ∀ f : MethodDecl → MethodDecl, (∀ m, (f m).head = m.head) →
        (∀ m, (f m).body = m.body) → (Change.setMethodAttribute m custom : Change ρ).Revises e
          { e with methods := e.methods.modify m.index f } := by
      intro f hhead hbody
      refine ⟨e.prolongs_modify m.index hhead, fun i method hmethod _ => ?_, fun _ _ => ⟨rfl, rfl⟩⟩
      dsimp only
      rw [List.getElem?_modify, hmethod]
      refine ⟨_, rfl, ?_⟩
      split
      · exact ⟨hhead method, hbody method⟩
      · exact ⟨rfl, rfl⟩
    rw [hexec]
    exact horderly.revises_updated he (f := fun d => { d with methods := d.methods.modify m.index _ })
      (hrevises _ (fun _ => rfl) fun _ => rfl) hd

/-- An attribute of a type changes no member. -/
theorem revises_setTypeAttribute
    (horderly : w.Orderly) (custom : CustomAttribute) (hd : w.assembly.decl? x = some d) :
  ∃ d', ((setTypeAttribute id custom).exec w).2.assembly.decl? x = some d'
    ∧ (Change.setTypeAttribute id custom : Change ρ).Revises d d'
  := by
  rw [setTypeAttribute, building]
  rw [exec_bind, exec_ask]
  cases he : w.assembly.building id with
  | error error => exact ⟨d, hd, .refl _ d⟩
  | ok e =>
      dsimp only
      exact horderly.revises_updated he
        (f := fun d => { d with customAttributes := d.customAttributes ++ [custom] })
        (.of_members rfl rfl rfl rfl rfl) hd

end Build

/-- What an operation leaves of a type, whether it is accepted or refused. -/
theorem Change.revises
    (c : Change ρ) (horderly : w.Orderly) {x : TypeId} (hd : w.assembly.decl? x = some d) :
  ∃ d', (c.perform w).assembly.decl? x = some d' ∧ c.Revises d d'
  := by
  cases c with
  | defineField id name t spec =>
      apply Build.Adding.revises (Build.adding_defineField id name t spec) _ horderly _
        (Build.notOfEnums_defineField id name t spec) hd
      exact Build.needs_guard (Build.needs_building _)
  | defineLiteral id name value => exact Build.revises_defineLiteral horderly name value hd
  | defineMethod owner name spec body =>
      exact Build.Adding.revises (Build.adding_defineMethod owner name spec body .method) _ horderly
        (Build.needs_defineMethod owner name spec body .method)
        (Build.notOfEnums_defineMethod owner name spec body .method) hd
  | defineConstructor owner spec body =>
      exact Build.Adding.revises (Build.adding_defineConstructor owner spec body) _ horderly
        (Build.needs_building _) (Build.notOfEnums_defineConstructor owner spec body) hd
  | defineProperty id name t spec => exact Build.revises_defineProperty horderly name t spec hd
  | replaceBody m body => exact Build.revises_replaceBody horderly m body hd
  | setMethodAttribute m custom => exact Build.revises_setMethodAttribute horderly m custom hd
  | setTypeAttribute id custom => exact Build.revises_setTypeAttribute horderly custom hd
  | declareType name kind spec enclosing =>
      rw [perform]
      obtain ⟨error, hexec⟩ | ⟨new, hnew, hexec⟩ := Build.exec_declareType name kind spec enclosing w
      · rw [hexec]
        exact ⟨d, hd, .refl _ d⟩
      · have hunused := (Workspace.declares_of_newType horderly.toFresh hnew).unused
        rw [hexec, Workspace.decl?_declaring hunused, hd, Option.some_or, Option.map_some]
        split
        · exact ⟨_, rfl, .of_members rfl rfl rfl rfl rfl⟩
        · exact ⟨d, rfl, .refl _ d⟩
  | setBase id given =>
      rw [perform]
      obtain ⟨error, hexec⟩ | ⟨e, base, he, -, -, -, hexec⟩ := Build.exec_setBase id given w
      · rw [hexec]
        exact ⟨d, hd, .refl _ d⟩
      · rw [hexec]
        exact horderly.revises_updated he (f := fun d => { d with base := base })
          (.of_members rfl rfl rfl rfl rfl) hd
  | addInterface id interface =>
      rw [perform]
      obtain ⟨error, hexec⟩ | ⟨e, he, -, -, hexec⟩ := Build.exec_addInterface id interface w
      · rw [hexec]
        exact ⟨d, hd, .refl _ d⟩
      · rw [hexec]
        apply horderly.revises_updated he _ hd
        split
        · exact .refl _ e
        · exact .of_members rfl rfl rfl rfl rfl
  | finalize =>
      rw [perform]
      obtain hsame | ⟨new, unit, -, -, hexec⟩ := Build.finalize_outcome horderly.toFresh
      · rw [hsame]
        exact ⟨d, hd, .refl _ d⟩
      · rw [hexec]
        change ∃ d', (w.realizing new).assembly.decl? x = some d' ∧ _
        rw [Workspace.decl?_realizing, hd, Option.map_some]
        split
        · exact ⟨_, rfl, .of_members rfl rfl rfl rfl rfl⟩
        · exact ⟨d, rfl, .refl _ d⟩

/-! ## New types -/

/-- A type has no fields yet, and an enumeration has no interfaces. -/
structure TypeDecl.Blank (d : TypeDecl) : Prop where
  fields : d.fields = []
  nextLiteral : d.nextLiteral = 0
  interfaces : d.handle.kind.isEnum = true → d.interfaces = []

namespace Workspace

variable {w' : Workspace} {x : TypeId}

/-- A type has no members when it is opened. -/
theorem blank_of_newType
    {name : String} {kind : TypeKind} {spec : TypeSpec} {enclosing : Option TypeId}
    (h : w.newType name kind spec enclosing = .ok d) :
  d.Blank
  := by
  rw [newType] at h
  dsimp only at h
  obtain ⟨-, h⟩ := of_guard_ok h
  obtain ⟨-, h⟩ := of_guard_ok h
  obtain ⟨fullName, -, h⟩ := exists_of_bind_ok h
  obtain ⟨-, h⟩ := of_guard_ok h
  obtain ⟨base, -, h⟩ := exists_of_bind_ok h
  split at h
  · obtain ⟨interfaces, hnone, h⟩ := exists_of_bind_ok h
    cases hnone
    cases h
    exact ⟨rfl, rfl, fun _ => rfl⟩
  · next hkind =>
    obtain ⟨interfaces, -, h⟩ := exists_of_bind_ok h
    cases h
    exact ⟨rfl, rfl, fun henum => absurd henum hkind⟩

theorem Edits.decl?_eq_none (h : w.Edits w') (hnone : w.assembly.decl? x = none) :
  w'.assembly.decl? x = none
  := by
  have hx := h.decl x
  rw [hnone] at hx
  exact eq_none_of_rel hx

end Workspace

/-- A type that the unit has not had before. -/
theorem Change.declared
    (c : Change ρ) (hfresh : w.Fresh) {x : TypeId} (hnone : w.assembly.decl? x = none)
    (hd : (c.perform w).assembly.decl? x = some d) :
  d.Blank
  := by
  have hedits : ¬ w.Edits (c.perform w) := by
    intro hedits
    rw [hedits.decl?_eq_none hnone] at hd
    cases hd
  cases c with
  | declareType name kind spec enclosing =>
      rw [perform] at hd
      obtain ⟨error, hexec⟩ | ⟨new, hnew, hexec⟩ := Build.exec_declareType name kind spec enclosing w
      · rw [hexec, hnone] at hd
        cases hd
      · have hunused := (Workspace.declares_of_newType hfresh hnew).unused
        rw [hexec, Workspace.decl?_declaring hunused, hnone, Option.none_or] at hd
        have hblank := Workspace.blank_of_newType hnew
        obtain ⟨new', hnew', rfl⟩ := Option.map_eq_some_iff.mp hd
        split at hnew'
        · cases hnew'
          split <;> exact ⟨hblank.fields, hblank.nextLiteral, hblank.interfaces⟩
        · cases hnew'
  | setBase id given =>
      rw [perform] at hd
      obtain ⟨error, hexec⟩ | ⟨e, base, -, -, -, -, hexec⟩ := Build.exec_setBase id given w
      · rw [hexec, hnone] at hd
        cases hd
      · rw [hexec] at hd
        change (w.rebasing id base).assembly.decl? x = _ at hd
        rw [Workspace.decl?_rebasing, hnone] at hd
        cases hd
  | addInterface id interface =>
      rw [perform] at hd
      obtain ⟨error, hexec⟩ | ⟨e, -, -, -, hexec⟩ := Build.exec_addInterface id interface w
      · rw [hexec, hnone] at hd
        cases hd
      · rw [hexec, Workspace.decl?_implementing, hnone] at hd
        cases hd
  | finalize =>
      rw [perform] at hd
      obtain hsame | ⟨new, unit, -, -, hexec⟩ := Build.finalize_outcome hfresh
      · rw [hsame, hnone] at hd
        cases hd
      · rw [hexec] at hd
        change (w.realizing new).assembly.decl? x = _ at hd
        rw [Workspace.decl?_realizing, hnone] at hd
        cases hd
  | defineField id name t spec => cases hedits (Build.editing_defineField w id name t spec).edits
  | defineLiteral id name value => cases hedits (Build.editing_defineLiteral w id name value).edits
  | defineMethod owner name spec body =>
      cases hedits (Build.editing_defineMethod w owner name spec body _).edits
  | defineConstructor owner spec body =>
      cases hedits (Build.editing_defineConstructor w owner spec body).edits
  | defineProperty id name t spec =>
      cases hedits (Build.editing_defineProperty w id name t spec).edits
  | replaceBody m body => cases hedits (Build.editing_replaceBody w m body).edits
  | setMethodAttribute m custom => cases hedits (Build.editing_setMethodAttribute w m custom).edits
  | setTypeAttribute id custom => cases hedits (Build.editing_setTypeAttribute w id custom).edits

end ManagedCode
