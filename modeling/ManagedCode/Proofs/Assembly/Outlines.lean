import ManagedCode.Proofs.Assembly.History

/-!
# Outlines

The outline of a type is what it is apart from its members: its place, its base, its
interfaces and the types nested in it.  An operation that adds members or changes them keeps
the outlines of all types, leaves a realized type exactly as it is, and gives a type only
methods whose attributes fit together (`Workspace.Edits`).
-/

namespace ManagedCode

variable {ρ α β : Type}

/-! ## Methods whose attributes fit together -/

/-- Only a virtual method is linked to a base method, and it asks for no slot of its own; only
a virtual method is linked to an interface method or abstract, and virtual methods are methods of
objects. -/
structure MethodDecl.Proper (m : MethodDecl) : Prop where
  linked : m.baseSlot.isSome → m.attributes.isVirtual = true ∧ m.attributes.newSlot = false
  implementing : m.overrides.isSome → m.attributes.isVirtual = true
  isAbstract : m.isAbstract = true → m.attributes.isVirtual = true
  isVirtual : m.attributes.isVirtual = true → m.isStatic = false

/-- What is proper about a method shows in its head. -/
theorem MethodDecl.Proper.of_head {m m' : MethodDecl} (hhead : m.head = m'.head) (h : m.Proper) :
  m'.Proper
  := by
  have hattributes : m.attributes = m'.attributes := (congrArg MethodDecl.attributes hhead :)
  have hslot : m.baseSlot = m'.baseSlot := (congrArg MethodDecl.baseSlot hhead :)
  have hoverrides : m.overrides = m'.overrides := (congrArg MethodDecl.overrides hhead :)
  constructor
  · rw [← hattributes, ← hslot]
    apply h.linked
  · rw [← hattributes, ← hoverrides]
    apply h.implementing
  · rw [MethodDecl.isAbstract, ← hattributes]
    apply h.isAbstract
  · rw [MethodDecl.isStatic, ← hattributes]
    apply h.isVirtual

/-- An abstract method is declared virtual, and a virtual one is not declared static. -/
theorem MethodSpec.declaredAttributes_proper
    (spec : MethodSpec) (owner : TypeKind) (kind : MethodKind) :
  ((spec.declaredAttributes owner kind).isAbstract = true →
    (spec.declaredAttributes owner kind).isVirtual = true)
  ∧ ((spec.declaredAttributes owner kind).isVirtual = true →
    (spec.declaredAttributes owner kind).isStatic = false)
  := by
  have hof : ∀ a : MethodAttributes, a = .of owner spec.visibility spec.modifier →
      (a.isAbstract = true → a.isVirtual = true) ∧ (a.isVirtual = true → a.isStatic = false) := by
    rintro _ rfl
    unfold MethodAttributes.of MethodAttributes.access
    cases owner.isInterface <;> cases spec.modifier <;> cases spec.visibility <;> simp
  rw [declaredAttributes]
  split <;> apply hof _ rfl

/-- The entry of a constructor is proper. -/
theorem ConstructorSpec.proper_entry (spec : ConstructorSpec) : spec.entry.Proper := by
  have hplain : spec.entry.isAbstract = false ∧ spec.entry.attributes.isVirtual = false := by
    unfold entry MethodDecl.isAbstract MethodAttributes.ofConstructor MethodAttributes.access
    cases spec.visibility <;> simp
  constructor
  · rintro ⟨⟩
  · rintro ⟨⟩
  · intro h
    rw [hplain.1] at h
    cases h
  · intro h
    rw [hplain.2] at h
    cases h

/-- What the declaration of a method comes to.  A method that overrides another one is virtual,
whatever it was declared. -/
theorem Workspace.proper_declaration
    {w : Workspace} {owner : TypeId} {name : String} {spec : MethodSpec} {kind : MethodKind}
    {m : MethodDecl} {target : Option Overridden}
    (h : w.declaration owner name spec kind = .ok (m, target)) :
  m.Proper
  := by
  rw [declaration] at h
  dsimp only at h
  obtain ⟨-, h⟩ := of_guard_ok h
  obtain ⟨d, -, h⟩ := exists_of_bind_ok h
  obtain ⟨-, h⟩ := of_guard_ok h
  have hdeclared := spec.declaredAttributes_proper d.handle.kind kind
  have hplain : (w.entry d.handle.kind name spec kind none).Proper := by
    refine ⟨?_, ?_, hdeclared.1, hdeclared.2⟩
    · rintro ⟨⟩
    · rintro ⟨⟩
  split at h
  · obtain ⟨-, h⟩ := of_guard_ok h
    cases h
    apply hplain
  · next hinstance =>
    obtain ⟨target', -, h⟩ := exists_of_bind_ok h
    obtain ⟨-, h⟩ := of_guard_ok h
    cases h
    cases target with
    | none => apply hplain
    | some t =>
        simp only [Bool.or_eq_true, not_or, Bool.not_eq_true] at hinstance
        cases horigin : t.origin with
        | baseType =>
            constructor
            · intro _
              simp [entry, horigin, MethodAttributes.overriding]
            · intro _
              simp [entry, horigin, MethodAttributes.overriding]
            · intro _
              simp [entry, horigin, MethodAttributes.overriding]
            · intro _
              simpa [entry, horigin, MethodAttributes.overriding, MethodDecl.isStatic]
                using hinstance.1
        | interface =>
            constructor
            · intro hslot
              simp [entry, horigin, Option.filter] at hslot
            · intro _
              simp [entry, horigin, MethodAttributes.overriding]
            · intro _
              simp [entry, horigin, MethodAttributes.overriding]
            · intro _
              simpa [entry, horigin, MethodAttributes.overriding, MethodDecl.isStatic]
                using hinstance.1

/-! ## Operations that keep outlines -/

/-- What a type is apart from its members. -/
def TypeDecl.outline (d : TypeDecl) : TypeDecl :=
  { d with
    fields := []
    methods := []
    properties := []
    members := []
    customAttributes := []
    nextLiteral := 0 }

/-- The methods of a type are those of another one, or proper. -/
def TypeDecl.Adds (d d' : TypeDecl) : Prop :=
  ∀ m ∈ d'.methods, (∃ m₀ ∈ d.methods, m₀.head = m.head) ∨ m.Proper

/-- A type has kept its outline, and all of it if it is realized. -/
structure TypeDecl.Edited (d d' : TypeDecl) : Prop where
  outline : d'.outline = d.outline
  frozen : d.state = .realized → d' = d
  methods : d.Adds d'

namespace TypeDecl

variable {d d' d'' : TypeDecl}

/-- A declaration that loses methods adds none. -/
theorem adds_of_subset (h : d'.methods ⊆ d.methods) : d.Adds d' :=
  fun m hm => .inl ⟨m, h hm, rfl⟩

/-- One addition after another. -/
theorem Adds.trans (h : d.Adds d') (h' : d'.Adds d'') : d.Adds d'' := by
  intro m hm
  obtain ⟨m₁, hm₁, hhead₁⟩ | hproper := h' m hm
  · obtain ⟨m₀, hm₀, hhead⟩ | hproper := h m₁ hm₁
    · left
      exact ⟨m₀, hm₀, hhead.trans hhead₁⟩
    · right
      apply hproper.of_head hhead₁
  · right
    apply hproper

/-- A proper method may be added. -/
theorem adds_push {m : MethodDecl} (hm : m.Proper) : d.Adds (d.pushMethod m) := by
  intro m' hm'
  obtain hold | hlast := List.mem_append.mp hm'
  · left
    exact ⟨m', hold, rfl⟩
  · right
    rwa [List.mem_singleton.mp hlast]

/-- A method with the same head is the same addition. -/
theorem adds_modify (d : TypeDecl) (index : Nat) {f : MethodDecl → MethodDecl}
    (hf : ∀ m, (f m).head = m.head) :
  d.Adds { d with methods := d.methods.modify index f }
  := by
  intro m hm
  left
  obtain ⟨i, hi⟩ := List.getElem?_of_mem hm
  rw [List.getElem?_modify] at hi
  obtain ⟨m₀, hm₀, rfl⟩ := Option.map_eq_some_iff.mp hi
  refine ⟨m₀, List.mem_of_getElem? hm₀, ?_⟩
  split
  · exact (hf m₀).symm
  · rfl

/-- A method that is dropped adds nothing. -/
theorem adds_drop (d : TypeDecl) (index : Nat) : d.Adds (d.dropMethod index) := by
  apply adds_of_subset
  rw [dropMethod]
  split
  · apply List.dropLast_subset
  · apply List.Subset.refl

namespace Edited

/-- A declaration may stay as it is. -/
theorem refl (d : TypeDecl) : d.Edited d :=
  ⟨rfl, fun _ => rfl, adds_of_subset (List.Subset.refl _)⟩

/-- An edited declaration has the same handle. -/
theorem handle (h : d.Edited d') : d'.handle = d.handle :=
  (congrArg TypeDecl.handle h.outline :)

/-- It is in the same state. -/
theorem state (h : d.Edited d') : d'.state = d.state :=
  (congrArg TypeDecl.state h.outline :)

/-- It has the same number. -/
theorem id_eq (h : d.Edited d') : d'.id = d.id :=
  congrArg DefinedType.id h.handle

end Edited

end TypeDecl

/-- Operations have kept the outlines of all types of a unit, and the rest of the unit. -/
structure Workspace.Edits (w w' : Workspace) : Prop where
  session : w'.session = w.session
  assembly : { w'.assembly with types := [] } = { w.assembly with types := [] }
  handles : w'.assembly.types.map (·.handle) = w.assembly.types.map (·.handle)
  decl : ∀ x, Option.Rel TypeDecl.Edited (w.assembly.decl? x) (w'.assembly.decl? x)

/-- A type of the unit is not realized. -/
def Workspace.Open (w : Workspace) (id : TypeId) : Prop :=
  ∀ d, w.assembly.decl? id = some d → d.state = .building

namespace Workspace

variable {w w' : Workspace}

/-- A workspace may stay as it is. -/
theorem Edits.refl (w : Workspace) : w.Edits w := by
  refine ⟨rfl, rfl, rfl, fun x => ?_⟩
  cases w.assembly.decl? x with
  | none => exact .none
  | some d => exact .some (.refl d)

/-- A type that can be changed has been open before. -/
theorem Edits.open_of_building
    (h : w.Edits w') {id : TypeId} {d : TypeDecl} (hd : w'.assembly.building id = .ok d) :
  w.Open id
  := by
  obtain ⟨hd, hstate⟩ := Assembly.building_ok hd
  intro d₀ hd₀
  have hid := h.decl id
  rw [hd₀] at hid
  obtain ⟨d', hd', hedited⟩ := rel_some hid
  rw [hd] at hd'
  cases hd'
  rw [← hedited.state, hstate]

/-- Changing the members of one type that is open. -/
theorem Edits.updated
    (h : w.Edits w') {id : TypeId} {f : TypeDecl → TypeDecl} (hopen : w.Open id)
    (hf : ∀ d, (f d).outline = d.outline) (hadds : ∀ d, TypeDecl.Adds d (f d)) :
  w.Edits (w'.updated id f)
  := by
  have hhandle : ∀ d, (f d).handle = d.handle := fun d => (congrArg TypeDecl.handle (hf d) :)
  refine ⟨h.session, h.assembly, ?_, fun x => ?_⟩
  · rw [← h.handles]
    apply Assembly.update_handles _ id hhandle
  · change Option.Rel _ _ ((w'.assembly.update id f).decl? x)
    rw [Assembly.decl?_update _ _ _ hhandle]
    have hx := h.decl x
    cases hd : w.assembly.decl? x with
    | none =>
        rw [hd] at hx
        rw [eq_none_of_rel hx]
        exact .none
    | some d =>
        rw [hd] at hx
        obtain ⟨d', hd', hedited⟩ := rel_some hx
        rw [hd', Option.map_some]
        apply Option.Rel.some
        split
        · next hid =>
          rw [Assembly.decl?_id hd'] at hid
          subst hid
          refine ⟨(hf d').trans hedited.outline, fun hrealized => ?_,
            hedited.methods.trans (hadds d')⟩
          rw [hopen d hd] at hrealized
          cases hrealized
        · apply hedited

end Workspace

namespace Build

open Workspace

variable {w : Workspace}

/-- An operation goes on to edit a unit. -/
def Editing (w : Workspace) (b : Build α) : Prop :=
  ∀ w', w.Edits w' → w.Edits (b.exec w').2

/-- What an operation leaves is an edited workspace. -/
theorem Editing.edits {b : Build α} (h : Editing w b) : w.Edits (b.exec w).2 :=
  h w (.refl w)

/-- An answer edits nothing. -/
theorem editing_pure (a : α) : Editing w (pure a : Build α) :=
  fun _ hw => hw

/-- Nor does a refusal. -/
theorem editing_throw (e : BuildError) : Editing w (throw e : Build α) :=
  fun _ hw => hw

theorem editing_get : Editing w (get : Build Workspace) :=
  fun _ hw => hw

/-- Nor does a question. -/
theorem editing_ask (f : Workspace → Except BuildError α) : Editing w (ask f) := by
  intro w' hw
  rw [exec_ask]
  apply hw

/-- In a sequence, what an answer of the first operation tells can be used in the second. -/
theorem editing_bind_of_ok
    {Q : α → Prop} {b : Build α} {f : α → Build β} (hb : Editing w b)
    (hanswer : ∀ w' a, w.Edits w' → (b.exec w').1 = .ok a → Q a)
    (hf : ∀ a, Q a → Editing w (f a)) :
  Editing w (b >>= f)
  := by
  intro w' hw
  rw [exec_bind]
  cases h : (b.exec w').1 with
  | ok a => apply hf a (hanswer w' a hw h) _ (hb w' hw)
  | error e => apply hb w' hw

/-- Operations may follow each other. -/
theorem editing_bind {b : Build α} {f : α → Build β} (hb : Editing w b)
    (hf : ∀ a, Editing w (f a)) :
  Editing w (b >>= f)
  :=
  editing_bind_of_ok hb (fun _ _ _ _ => trivial) fun a _ => hf a

/-- Nothing follows a refusal. -/
theorem editing_throw_bind (e : BuildError) (f : α → Build β) :
  Editing w ((throw e : Build α) >>= f)
  :=
  fun _ hw => hw

/-- Both ways of a decision are editing. -/
theorem editing_ite {c : Prop} [Decidable c] {b b' : Build α} (hb : Editing w b)
    (hb' : Editing w b') :
  Editing w (if c then b else b')
  := by
  split
  · apply hb
  · apply hb'

/-- So is the handling of a failure. -/
theorem editing_tryCatch {b : Build α} {h : BuildError → Build α} (hb : Editing w b)
    (hh : ∀ e, Editing w (h e)) :
  Editing w (tryCatch b h)
  := by
  intro w' hw
  rw [exec_tryCatch]
  split
  · apply hb w' hw
  · apply hh _ _ (hb w' hw)

theorem editing_invalid (id : TypeId) (reason : String) :
  Editing w (invalid id reason : Build α)
  :=
  editing_bind editing_get fun _ => editing_throw _

/-- A type that can be changed has been open all the time. -/
theorem editing_building
    {id : TypeId} {f : TypeDecl → Build α} (hf : w.Open id → ∀ d, Editing w (f d)) :
  Editing w (building id >>= f)
  := by
  apply editing_bind_of_ok (Q := fun _ => w.Open id) (editing_ask _)
  · intro w' d hedits hbuilding
    rw [exec_ask] at hbuilding
    apply hedits.open_of_building hbuilding
  · intro d hopen
    apply hf hopen

/-- A change of a type that is being built keeps its outline and adds proper methods. -/
theorem editing_updateType
    {id : TypeId} {f : TypeDecl → TypeDecl} (hopen : w.Open id)
    (hf : ∀ d, (f d).outline = d.outline) (hadds : ∀ d, TypeDecl.Adds d (f d)) :
  Editing w (updateType id f)
  := by
  intro w' hedits
  rw [exec_updateType]
  apply hedits.updated hopen hf hadds

/-- Changing members that are no methods. -/
theorem editing_members
    {id : TypeId} {f : TypeDecl → TypeDecl} (hopen : w.Open id)
    (hf : ∀ d, (f d).outline = d.outline) (hmethods : ∀ d, (f d).methods = d.methods) :
  Editing w (updateType id f)
  := by
  apply editing_updateType hopen hf
  intro d
  apply TypeDecl.adds_of_subset
  rw [hmethods]
  apply List.Subset.refl

/-! ## Methods -/

/-- A body is put into a method of a type that is being built. -/
theorem editing_putBody {m : MethodRef} (hopen : w.Open m.owner) (body : MethodBody) :
  Editing w (putBody m body)
  := by
  apply editing_bind (editing_ask _)
  intro _
  apply editing_updateType hopen
  · intro d
    rfl
  · intro d
    apply TypeDecl.adds_modify d
    intro method
    rfl

/-- A method is completed that has been reserved. -/
theorem editing_completeMethod
    {m : MethodRef} (hopen : w.Open m.owner) (target : Option Overridden) (body : Body ρ) :
  Editing w (completeMethod m target body)
  := by
  apply editing_bind editing_get
  intro w'
  split
  · apply editing_bind (editing_putBody hopen _)
    intro _
    apply editing_pure
  · apply editing_bind
    · apply editing_updateType hopen
      · intro d
        rw [TypeDecl.dropMethod]
        split <;> rfl
      · intro d
        apply TypeDecl.adds_drop
    · intro _
      apply editing_throw

/-- A method that is reserved is one of a type that has been open all the time. -/
theorem editing_reserve
    {owner : TypeId} {entry : MethodDecl} {f : MethodRef → Build α} (hentry : entry.Proper)
    (hf : ∀ m, w.Open m.owner → Editing w (f m)) :
  Editing w (reserveMethod owner entry >>= f)
  := by
  have hreserve : Editing w (reserveMethod owner entry) := by
    apply editing_building
    intro hopen d
    apply editing_ite (editing_throw_bind _ _)
    apply editing_bind
    · apply editing_updateType hopen
      · intro d'
        rfl
      · intro d'
        apply TypeDecl.adds_push hentry
    · intro _
      apply editing_pure
  apply editing_bind_of_ok (Q := fun m => w.Open m.owner) hreserve
  · intro w' m hedits hanswer
    obtain ⟨e, hexec⟩ | ⟨d, hbuilding, hexec⟩ := exec_reserveMethod owner entry w'
    · rw [hexec] at hanswer
      cases hanswer
    · rw [hexec] at hanswer
      cases hanswer
      have howner : (d.methodRef d.methods.length).owner = owner :=
        Assembly.decl?_id (Assembly.building_ok hbuilding).1
      rw [howner]
      apply hedits.open_of_building hbuilding
  · apply hf

/-- Defining a method is editing. -/
theorem editing_defineMethod
    (w : Workspace) (owner : TypeId) (name : String) (spec : MethodSpec) (body : Body ρ)
    (kind : MethodKind) :
  Editing w (defineMethod owner name spec body kind)
  := by
  apply editing_bind_of_ok (Q := fun declared => declared.1.Proper) (editing_ask _)
  · rintro w' ⟨entry, target⟩ - hanswer
    rw [exec_ask] at hanswer
    apply proper_declaration hanswer
  · rintro ⟨entry, target⟩ hproper
    apply editing_reserve hproper
    intro m hopen
    apply editing_ite (editing_pure _)
    apply editing_completeMethod hopen

/-- So is defining a constructor. -/
theorem editing_defineConstructor
    (w : Workspace) (owner : TypeId) (spec : ConstructorSpec) (body : Body ρ) :
  Editing w (defineConstructor owner spec body)
  := by
  apply editing_building
  intro _ d
  apply editing_ite (editing_throw_bind _ _)
  apply editing_ite (editing_throw_bind _ _)
  apply editing_reserve spec.proper_entry
  intro m hopen
  apply editing_completeMethod hopen

/-- What is done to a method is done in a type that is being built. -/
theorem editing_buildingMethod
    {m : MethodRef} {f : MethodDecl → Build α} (hf : w.Open m.owner → ∀ d, Editing w (f d)) :
  Editing w (buildingMethod m >>= f)
  := by
  rw [buildingMethod]
  rw [bind_assoc]
  apply editing_building
  intro hopen d
  split
  · rw [pure_bind]
    apply hf hopen
  · apply editing_throw_bind

/-- Replacing a body is editing. -/
theorem editing_replaceBody (w : Workspace) (m : MethodRef) (body : Body ρ) :
  Editing w (replaceBody m body)
  := by
  apply editing_buildingMethod
  intro hopen method
  apply editing_bind editing_get
  intro w'
  apply editing_ite (editing_throw_bind _ _)
  apply editing_bind (editing_ask _)
  intro target
  apply editing_bind (editing_ask _)
  intro result
  apply editing_bind (editing_putBody hopen _)
  intro _
  apply editing_pure

/-- So is setting an attribute of a method. -/
theorem editing_setMethodAttribute (w : Workspace) (m : MethodRef) (custom : CustomAttribute) :
  Editing w (setMethodAttribute m custom)
  := by
  apply editing_buildingMethod
  intro hopen _
  apply editing_updateType hopen
  · intro d
    rfl
  · intro d
    apply TypeDecl.adds_modify d
    intro method
    rfl

/-- So is setting one of a type. -/
theorem editing_setTypeAttribute (w : Workspace) (id : TypeId) (custom : CustomAttribute) :
  Editing w (setTypeAttribute id custom)
  := by
  apply editing_building
  intro hopen _
  apply editing_members hopen
  · intro d
    rfl
  · intro d
    rfl

/-! ## Fields and properties -/

theorem editing_pushField (w : Workspace) (id : TypeId) (f : FieldDecl) :
  Editing w (pushField id f)
  := by
  apply editing_building
  intro hopen d
  apply editing_ite (editing_throw_bind _ _)
  apply editing_bind
  · apply editing_members hopen
    · intro d'
      rfl
    · intro d'
      rfl
  · intro _
    apply editing_pure

/-- So is defining a field. -/
theorem editing_defineField
    (w : Workspace) (id : TypeId) (name : String) (t : TypeRef) (spec : FieldSpec) :
  Editing w (defineField id name t spec)
  := by
  apply editing_ite (editing_throw_bind _ _)
  apply editing_building
  intro hopen d
  cases d.handle.kind with
  | interfaceType => apply editing_pure
  | enumType p => apply editing_invalid
  | classType =>
      apply editing_ite (editing_invalid _ _)
      apply editing_bind (editing_pushField w id _)
      intro f
      apply editing_pure

/-- So is defining a literal. -/
theorem editing_defineLiteral
    (w : Workspace) (id : TypeId) (name : String) (value : Option Int64) :
  Editing w (defineLiteral id name value)
  := by
  apply editing_ite (editing_throw_bind _ _)
  apply editing_building
  intro hopen d
  cases d.handle.kind with
  | interfaceType => apply editing_invalid
  | classType => apply editing_invalid
  | enumType p =>
      apply editing_ite (editing_invalid _ _)
      apply editing_bind (editing_pushField w id _)
      intro f
      apply editing_bind
      · apply editing_members hopen
        · intro d'
          rfl
        · intro d'
          rfl
      · intro _
        apply editing_pure

/-- So are the bodies of the accessors of an auto property. -/
theorem editing_accessorBodies
    (w : Workspace) (id : TypeId) (name : String) (t : TypeRef) (spec : PropertySpec ρ) :
  Editing w (accessorBodies id name t spec)
  := by
  apply editing_building
  intro _ d
  dsimp only
  cases spec.accessors with
  | auto writable =>
      apply editing_ite (editing_pure _)
      apply editing_bind (editing_defineField w id _ t _)
      intro f
      cases f with
      | none => apply editing_invalid
      | some f => apply editing_pure
  | custom getter setter =>
      cases getter with
      | some getter => apply editing_pure
      | none =>
          cases setter with
          | some setter => apply editing_pure
          | none => apply editing_invalid

theorem editing_defineAccessor
    (w : Workspace) (id : TypeId) (name : String) (spec : MethodSpec) (kind : MethodKind)
    (body : Option (Body ρ)) :
  Editing w (defineAccessor id name spec kind body)
  := by
  cases body with
  | none => apply editing_pure
  | some body =>
      apply editing_bind (editing_defineMethod w id name spec body kind)
      intro answer
      apply editing_pure

/-- So is adding a property. -/
theorem editing_addProperty
    (w : Workspace) (id : TypeId) (name : String) (t : TypeRef) (spec : PropertySpec ρ) :
  Editing w (addProperty id name t spec)
  := by
  apply editing_bind (editing_accessorBodies w id name t spec)
  intro bodies
  apply editing_bind (editing_defineAccessor w id _ _ _ _)
  intro getter
  apply editing_bind (editing_defineAccessor w id _ _ _ _)
  intro setter
  apply editing_building
  intro hopen d
  apply editing_bind
  · apply editing_members hopen
    · intro d'
      rfl
    · intro d'
      rfl
  · intro _
    apply editing_pure

/-- So is defining one, also when it is taken back. -/
theorem editing_defineProperty
    (w : Workspace) (id : TypeId) (name : String) (t : TypeRef) (spec : PropertySpec ρ) :
  Editing w (defineProperty id name t spec)
  := by
  apply editing_ite (editing_throw_bind _ _)
  apply editing_building
  intro hopen d
  apply editing_ite (editing_invalid _ _)
  apply editing_ite (editing_invalid _ _)
  apply editing_ite (editing_throw _)
  apply editing_tryCatch (editing_addProperty w id name t spec)
  intro e
  apply editing_bind
  · apply editing_updateType hopen
    · intro d'
      rfl
    · intro d'
      apply TypeDecl.adds_of_subset
      apply List.take_subset
  · intro _
    apply editing_throw

end Build

end ManagedCode
