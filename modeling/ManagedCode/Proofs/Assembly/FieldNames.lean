import ManagedCode.Proofs.Assembly.Literals

/-!
# Names of fields

The fields of a type have names of their own, and each literal has a constant that already has the
form of the literal's type (`TypeDecl.Fielded`).  No operation on a unit changes this, whether it is
accepted or refused, so that it holds of all types in the whole lifetime of a session
(`Project.fielded_run`).
-/

namespace ManagedCode

variable {ρ α β : Type} {w : Workspace} {d d' : TypeDecl}

/-- A field that is a literal has a constant, which the form of its type leaves as it is. -/
def FieldDecl.Formed (f : FieldDecl) : Prop :=
  f.attributes.isLiteral = true →
    ∃ c, f.constant = some c ∧ (Value.ofConstant c).coerceTo f.type = .ofConstant c

/-- A type has fields with names of their own, and its literals have the form of their types. -/
structure TypeDecl.Fielded (d : TypeDecl) : Prop where
  distinct : (d.fields.map (·.name)).Nodup
  formed : ∀ f ∈ d.fields, f.Formed

namespace TypeDecl.Fielded

/-- A declaration is judged by its fields. -/
theorem of_fields (h : d.Fielded) (hfields : d'.fields = d.fields) : d'.Fielded := by
  refine ⟨?_, ?_⟩
  · rw [hfields]
    exact h.distinct
  · rw [hfields]
    exact h.formed

/-- Without fields there is nothing to judge. -/
theorem of_nil (hnone : d.fields = []) : d.Fielded := by
  refine ⟨?_, ?_⟩
  · rw [hnone]
    exact List.nodup_nil
  · rw [hnone]
    intro f hf
    cases hf

/-- A field of a new name may be added. -/
theorem pushField
    (h : d.Fielded) {f : FieldDecl} (hfree : d.fields.any (·.name == f.name) = false)
    (hformed : f.Formed) :
  (d.pushField f).Fielded
  := by
  have hnew : ∀ g ∈ d.fields, g.name ≠ f.name := by simpa using hfree
  refine ⟨?_, ?_⟩
  · change ((d.fields ++ [f]).map (·.name)).Nodup
    rw [List.map_append, List.map_singleton]
    apply h.distinct.append (List.nodup_singleton _)
    rw [List.disjoint_singleton]
    intro hmem
    obtain ⟨g, hg, hname⟩ := List.mem_map.mp hmem
    exact hnew g hg hname
  · intro g hg
    obtain hg | hg := List.mem_append.mp hg
    · exact h.formed g hg
    · exact List.mem_singleton.mp hg ▸ hformed

/-- Fields may be taken away from the end. -/
theorem truncate (h : d.Fielded) (fields methods members : Nat) :
  (d.truncate fields methods members).Fielded
  := by
  refine ⟨?_, fun f hf => h.formed f (List.mem_of_mem_take hf)⟩
  change ((d.fields.take fields).map (·.name)).Nodup
  rw [List.map_take]
  exact h.distinct.take

end TypeDecl.Fielded

namespace FieldAttributes

theorem isLiteral_of (visibility : Visibility) (modifier : Modifier) :
  (of visibility modifier).isLiteral = false
  := by
  cases visibility <;> cases modifier <;> rfl

end FieldAttributes

/-- A field of an enumeration has the form of the type that underlies the enumeration. -/
theorem Literal.formed
    {p : Primitive} {l : Literal} {e : DefinedType} (hkind : e.kind = .enumType p)
    (hfits : p.admits l.value = true) :
  (l.field e p).Formed
  := by
  obtain ⟨id, kind⟩ := e
  cases hkind
  intro _
  refine ⟨_, rfl, ?_⟩
  cases p <;> first | rfl | cases hfits

/-! ## Operations -/

namespace Workspace

/-- The types of a unit have fields as types should have. -/
def Fielded (w : Workspace) : Prop :=
  ∀ (x : TypeId) (d : TypeDecl), w.assembly.decl? x = some d → d.Fielded

/-- If the new declaration has good fields, all declarations have. -/
theorem Fielded.updated
    (h : w.Fielded) (id : TypeId) {f : TypeDecl → TypeDecl} (hhandle : ∀ d, (f d).handle = d.handle)
    (hf : ∀ d, w.assembly.decl? id = some d → (f d).Fielded) :
  (w.updated id f).Fielded
  := by
  intro x d hd
  rw [Workspace.updated, Assembly.decl?_update _ _ _ hhandle] at hd
  obtain ⟨e, he, rfl⟩ := Option.map_eq_some_iff.mp hd
  split
  · next hid =>
    rw [← Assembly.decl?_id he, hid] at he
    exact hf e he
  · exact h x e he

end Workspace

namespace Build

open Workspace

/-- A question changes nothing. -/
theorem keeps_ask (P : Workspace → Prop) (f : Workspace → Except BuildError α) :
  Keeps P (ask f)
  := by
  intro w hw
  rw [exec_ask]
  exact hw

theorem keeps_get (P : Workspace → Prop) : Keeps P (get : Build Workspace) :=
  fun _ hw => hw

theorem keeps_throw (P : Workspace → Prop) (e : BuildError) : Keeps P (throw e : Build α) :=
  fun _ hw => hw

/-- Nor does a refusal. -/
theorem Refusing.keeps {b : Build α} (h : Refusing b) (P : Workspace → Prop) : Keeps P b := by
  intro w hw
  obtain ⟨e, hexec⟩ := h w
  rw [hexec]
  exact hw

/-- Both branches of a decision keep the property. -/
theorem keeps_ite
    {P : Workspace → Prop} {c : Prop} [Decidable c] {b b' : Build α} (hb : Keeps P b)
    (hb' : Keeps P b') :
  Keeps P (if c then b else b')
  := by
  split
  · exact hb
  · exact hb'

/-- A guard keeps what the rest keeps. -/
theorem keeps_guard
    {P : Workspace → Prop} {c : Prop} [Decidable c] {e : BuildError} {f : β → Build α}
    {b : Build α} (hb : Keeps P b) :
  Keeps P (if c then (throw e : Build β) >>= f else b)
  := keeps_ite ((refusing_throw_bind e f).keeps P) hb

/-- So does an operation whose failure is handled. -/
theorem keeps_tryCatch
    {P : Workspace → Prop} {b : Build α} {h : BuildError → Build α} (hb : Keeps P b)
    (hh : ∀ e, Keeps P (h e)) :
  Keeps P (tryCatch b h)
  := by
  intro w hw
  rw [exec_tryCatch]
  split
  · exact hb w hw
  · exact hh _ _ (hb w hw)

/-- A change of a type that leaves its fields as they should be. -/
theorem fielded_updateType
    (id : TypeId) {f : TypeDecl → TypeDecl} (hhandle : ∀ d, (f d).handle = d.handle)
    (hf : ∀ d, d.Fielded → (f d).Fielded) :
  Keeps Fielded (updateType id f)
  := by
  intro w hw
  rw [exec_updateType]
  exact hw.updated id hhandle fun d hd => hf d (hw id d hd)

/-- A change of a type beside its fields. -/
theorem fielded_beside
    (id : TypeId) {f : TypeDecl → TypeDecl} (hhandle : ∀ d, (f d).handle = d.handle)
    (hfields : ∀ d, (f d).fields = d.fields) :
  Keeps Fielded (updateType id f)
  :=
  fielded_updateType id hhandle fun d hd => hd.of_fields (hfields d)

/-- A well-formed field of a free name is added. -/
theorem fielded_pushField (id : TypeId) {f : FieldDecl} (hformed : f.Formed) :
  Keeps Fielded (pushField id f)
  := by
  intro w hw
  rw [pushField, exec_bind, building, exec_ask]
  cases he : w.assembly.building id with
  | error error => exact hw
  | ok e =>
      have hdecl := (Assembly.building_ok he).1
      dsimp only
      rw [exec_ite]
      split
      · exact hw
      · next hfree =>
        rw [exec_bind, exec_updateType]
        apply hw.updated id (f := (·.pushField f)) fun _ => rfl
        intro d hd
        rw [hdecl] at hd
        cases hd
        exact (hw id e hdecl).pushField (eq_false_of_ne_true hfree) hformed

/-- Defining a field adds a well-formed one. -/
theorem fielded_defineField (id : TypeId) (name : String) (t : TypeRef) (spec : FieldSpec) :
  Keeps Fielded (defineField id name t spec)
  := by
  apply keeps_guard
  apply keeps_bind (keeps_ask Fielded _)
  intro d
  split
  · apply keeps_pure
  · exact (refusing_invalid id _).keeps Fielded
  · apply keeps_ite ((refusing_invalid id _).keeps Fielded)
    dsimp only
    apply keeps_bind
    · apply fielded_pushField
      intro hliteral
      rw [FieldAttributes.isLiteral_of] at hliteral
      cases hliteral
    · intro f
      apply keeps_pure

/-- So does defining a literal. -/
theorem fielded_defineLiteral (id : TypeId) (name : String) (value : Option Int64) :
  Keeps Fielded (defineLiteral id name value)
  := by
  apply keeps_guard
  apply keeps_bind (keeps_ask Fielded _)
  intro d
  split
  · next p hkind =>
    dsimp only
    split
    · exact (refusing_invalid id _).keeps Fielded
    · next hfits =>
      have hadmits : p.admits (value.getD d.nextLiteral) = true := by simpa using hfits
      apply keeps_bind (fielded_pushField id (Literal.formed (l := ⟨name, _⟩) hkind hadmits))
      intro f
      apply keeps_bind
      · exact fielded_beside id (fun _ => rfl) fun _ => rfl
      · intro _
        apply keeps_pure
  · exact (refusing_invalid id _).keeps Fielded

/-! ## Methods and properties -/

/-- Methods are kept beside fields. -/
theorem fielded_reserveMethod (owner : TypeId) (entry : MethodDecl) :
  Keeps Fielded (reserveMethod owner entry)
  := by
  apply keeps_bind (keeps_ask Fielded _)
  intro d
  apply keeps_guard
  apply keeps_bind
  · exact fielded_beside owner (fun _ => rfl) fun _ => rfl
  · intro _
    apply keeps_pure

/-- A body is put into a method. -/
theorem fielded_putBody (m : MethodRef) (body : MethodBody) :
  Keeps Fielded (putBody m body)
  := by
  apply keeps_bind (keeps_ask Fielded _)
  intro _
  exact fielded_beside m.owner (fun _ => rfl) fun _ => rfl

/-- Completing a method leaves the fields alone. -/
theorem fielded_completeMethod (m : MethodRef) (target : Option Overridden) (body : Body ρ) :
  Keeps Fielded (completeMethod m target body)
  := by
  apply keeps_bind (keeps_get Fielded)
  intro w
  split
  · apply keeps_bind (fielded_putBody m _)
    intro _
    apply keeps_pure
  · apply keeps_bind
    · apply fielded_beside m.owner
      · intro d
        exact d.dropMethod_handle m.index
      · intro d
        rw [TypeDecl.dropMethod]
        split <;> rfl
    · intro _
      apply keeps_throw

/-- So does defining one. -/
theorem fielded_defineMethod
    (owner : TypeId) (name : String) (spec : MethodSpec) (body : Body ρ) (kind : MethodKind) :
  Keeps Fielded (defineMethod owner name spec body kind)
  := by
  apply keeps_bind (keeps_ask Fielded _)
  intro (entry, target)
  apply keeps_bind (fielded_reserveMethod owner entry)
  intro m
  apply keeps_ite
  · apply keeps_pure
  · apply fielded_completeMethod

theorem fielded_defineConstructor (owner : TypeId) (spec : ConstructorSpec) (body : Body ρ) :
  Keeps Fielded (defineConstructor owner spec body)
  := by
  apply keeps_bind (keeps_ask Fielded _)
  intro d
  apply keeps_guard
  apply keeps_guard
  apply keeps_bind (fielded_reserveMethod owner _)
  intro m
  apply fielded_completeMethod

theorem fielded_buildingMethod (m : MethodRef) : Keeps Fielded (buildingMethod m) := by
  apply keeps_bind (keeps_ask Fielded _)
  intro d
  split
  · apply keeps_pure
  · apply keeps_throw

/-- So does replacing a body. -/
theorem fielded_replaceBody (m : MethodRef) (body : Body ρ) :
  Keeps Fielded (replaceBody m body)
  := by
  apply keeps_bind (fielded_buildingMethod m)
  intro method
  apply keeps_bind (keeps_get Fielded)
  intro w
  apply keeps_guard
  apply keeps_bind (keeps_ask Fielded _)
  intro target
  apply keeps_bind (keeps_ask Fielded _)
  intro (result, remarks)
  apply keeps_bind (fielded_putBody m result)
  intro _
  apply keeps_pure

/-- Attributes are kept beside fields. -/
theorem fielded_setMethodAttribute (m : MethodRef) (custom : CustomAttribute) :
  Keeps Fielded (setMethodAttribute m custom)
  := by
  apply keeps_bind (fielded_buildingMethod m)
  intro method
  exact fielded_beside m.owner (fun _ => rfl) fun _ => rfl

theorem fielded_setTypeAttribute (id : TypeId) (custom : CustomAttribute) :
  Keeps Fielded (setTypeAttribute id custom)
  := by
  apply keeps_bind (keeps_ask Fielded _)
  intro d
  exact fielded_beside id (fun _ => rfl) fun _ => rfl

/-- An auto property adds its field first. -/
theorem fielded_accessorBodies (id : TypeId) (name : String) (t : TypeRef) (spec : PropertySpec ρ) :
  Keeps Fielded (accessorBodies id name t spec)
  := by
  apply keeps_bind (keeps_ask Fielded _)
  intro d
  dsimp only
  split
  · apply keeps_ite
    · apply keeps_pure
    · apply keeps_bind (fielded_defineField id _ t _)
      intro f
      split
      · exact (refusing_invalid id _).keeps Fielded
      · apply keeps_pure
  · exact (refusing_invalid id _).keeps Fielded
  · apply keeps_pure

theorem fielded_defineAccessor
    (id : TypeId) (name : String) (spec : MethodSpec) (kind : MethodKind) (body : Option (Body ρ)) :
  Keeps Fielded (defineAccessor id name spec kind body)
  := by
  cases body with
  | none => apply keeps_pure
  | some body =>
      apply keeps_bind (fielded_defineMethod id name spec body kind)
      intro (m, remarks)
      apply keeps_pure

/-- A property adds its field and its accessors. -/
theorem fielded_addProperty (id : TypeId) (name : String) (t : TypeRef) (spec : PropertySpec ρ) :
  Keeps Fielded (addProperty id name t spec)
  := by
  apply keeps_bind (fielded_accessorBodies id name t spec)
  intro bodies
  dsimp only
  apply keeps_bind (fielded_defineAccessor id _ _ _ _)
  intro (getter, first)
  apply keeps_bind (fielded_defineAccessor id _ _ _ _)
  intro (setter, second)
  apply keeps_bind (keeps_ask Fielded _)
  intro d
  apply keeps_bind
  · exact fielded_beside id (fun _ => rfl) fun _ => rfl
  · intro _
    apply keeps_pure

theorem fielded_defineProperty (id : TypeId) (name : String) (t : TypeRef) (spec : PropertySpec ρ) :
  Keeps Fielded (defineProperty id name t spec)
  := by
  apply keeps_guard
  apply keeps_bind (keeps_ask Fielded _)
  intro d
  apply keeps_ite ((refusing_invalid id _).keeps Fielded)
  apply keeps_ite ((refusing_invalid id _).keeps Fielded)
  apply keeps_ite (keeps_throw Fielded _)
  apply keeps_tryCatch (fielded_addProperty id name t spec)
  intro error
  apply keeps_bind
  · exact fielded_updateType id (fun _ => rfl) fun e he => he.truncate _ _ _
  · intro _
    apply keeps_throw

end Build

/-! ## Lifetimes -/

/-- No operation changes that types have fields as they should. -/
theorem Change.fielded (c : Change ρ) (hfresh : w.Fresh) (h : w.Fielded) :
  (c.perform w).Fielded
  := by
  cases c with
  | declareType name kind spec enclosing =>
      rw [perform]
      obtain ⟨e, hexec⟩ | ⟨new, hnew, hexec⟩ := Build.exec_declareType name kind spec enclosing w
      · rw [hexec]
        exact h
      · rw [hexec]
        intro x d hd
        rw [Workspace.decl?_declaring (Workspace.declares_of_newType hfresh hnew).unused] at hd
        obtain ⟨e, he, rfl⟩ := Option.map_eq_some_iff.mp hd
        have hfielded : e.Fielded := by
          obtain he | ⟨-, he⟩ := Option.or_eq_some_iff.mp he
          · exact h x e he
          · split at he
            · cases he
              exact .of_nil (Workspace.blank_of_newType hnew).fields
            · cases he
        split
        · exact hfielded.of_fields rfl
        · exact hfielded
  | setBase id given =>
      rw [perform]
      obtain ⟨error, hexec⟩ | ⟨e, base, he, -, -, -, hexec⟩ := Build.exec_setBase id given w
      · rw [hexec]
        exact h
      · rw [hexec]
        exact h.updated id (fun _ => rfl) fun d hd => (h id d hd).of_fields rfl
  | addInterface id interface =>
      rw [perform]
      obtain ⟨error, hexec⟩ | ⟨e, he, -, -, hexec⟩ := Build.exec_addInterface id interface w
      · rw [hexec]
        exact h
      · rw [hexec]
        apply h.updated id (Workspace.implementing_handle interface)
        intro d hd
        split
        · exact h id d hd
        · exact (h id d hd).of_fields rfl
  | defineField id name t spec => exact Build.fielded_defineField id name t spec w h
  | defineLiteral id name value => exact Build.fielded_defineLiteral id name value w h
  | defineMethod owner name spec body =>
      exact Build.fielded_defineMethod owner name spec body .method w h
  | defineConstructor owner spec body => exact Build.fielded_defineConstructor owner spec body w h
  | defineProperty id name t spec => exact Build.fielded_defineProperty id name t spec w h
  | replaceBody m body => exact Build.fielded_replaceBody m body w h
  | setMethodAttribute m custom => exact Build.fielded_setMethodAttribute m custom w h
  | setTypeAttribute id custom => exact Build.fielded_setTypeAttribute id custom w h
  | finalize =>
      rw [perform]
      obtain hsame | ⟨new, unit, -, -, hexec⟩ := Build.finalize_outcome hfresh
      · rw [hsame]
        exact h
      · rw [hexec]
        intro x d hd
        change (w.realizing new).assembly.decl? x = _ at hd
        rw [Workspace.decl?_realizing] at hd
        obtain ⟨e, he, rfl⟩ := Option.map_eq_some_iff.mp hd
        split
        · exact (h x e he).of_fields rfl
        · exact h x e he

namespace Project

variable {p q : Project}

/-- The types of all units have fields as they should. -/
def Fielded (p : Project) : Prop :=
  ∀ (i : Nat) (a : Assembly), p.units[i]? = some a → (p.workspace a).Fielded

/-- Whatever a project turns into has good fields. -/
theorem Fielded.turns (h : p.Fielded) (hsound : p.Sound) (hq : p.Turns ρ q) : q.Fielded := by
  cases hq with
  | stays => exact h
  | registers registry => exact h
  | opens name =>
      intro j b hb
      obtain hb | rfl := open_cases hb
      · exact h j b hb
      · intro x d hd
        cases hd
  | @changes i a ha c =>
      intro j b hb
      obtain ⟨-, rfl⟩ | ⟨-, hb⟩ := put_cases ha hb
      · exact c.fielded (hsound.fresh ha) (h i a ha)
      · exact h j b hb

/-- In every history the fields of all declarations have names of their own and are well formed. -/
theorem fielded_run (verify : Bool) (history : List (HostEvent ρ)) :
  ((empty verify).run history).Fielded
  := by
  apply run_induction verify
  · rintro i a ⟨⟩
  · intro p q hsound h hq
    exact h.turns hsound hq
  · intro p h
    exact h

end Project

end ManagedCode
