import ManagedCode.Assembly.Declare
import ManagedCode.Proofs.Assembly.Building

/-!
# Declaring members

What the operations that add to a type leave behind.  A method that is refused leaves
the methods of its type as they were; one that is accepted adds its entry, and the entry
is what the declaration came to in the workspace before.
-/

namespace ManagedCode

/-- A type that is entered under a number without a type replaces none. -/
theorem Workspace.types_enterType
    {w : Workspace} {d : TypeDecl} (hunused : ∀ e ∈ w.assembly.types, e.id ≠ d.id) :
  (w.enterType d).assembly.types = w.assembly.types ++ [d]
  := by
  have hkept : w.assembly.types.filter (·.id != d.id) = w.assembly.types := by
    apply List.filter_eq_self.mpr
    intro e he
    exact bne_iff_ne.mpr (hunused e he)
  simp only [Workspace.enterType, hkept]

/-- The types of the unit are those from before and the new one. -/
theorem Workspace.mem_enterType
    {w : Workspace} {d e : TypeDecl} (he : e ∈ (w.enterType d).assembly.types) :
  e ∈ w.assembly.types ∨ e = d
  := by
  obtain he | he := List.mem_append.mp he
  · left
    exact (List.mem_filter.mp he).1
  · right
    exact List.mem_singleton.mp he

namespace Build

variable {ρ α β : Type} {w : Workspace}

/-- An operation leaves a unit as it was, as far as lookups can tell. -/
def Stays (b : Build α) : Prop :=
  ∀ id (w : Workspace), w.Grows id [] (b.exec w).2

/-- An answer changes no declaration. -/
theorem stays_pure (a : α) : Stays (pure a : Build α) :=
  fun id w => Workspace.Grows.refl id w

/-- Nor does a refusal. -/
theorem stays_throw (e : BuildError) : Stays (throw e : Build α) :=
  fun id w => Workspace.Grows.refl id w

/-- Nor does a question. -/
theorem stays_ask (f : Workspace → Except BuildError α) : Stays (ask f) := by
  intro id w
  rw [exec_ask]
  apply Workspace.Grows.refl

theorem stays_get : Stays (get : Build Workspace) :=
  fun id w => Workspace.Grows.refl id w

theorem stays_building (id : TypeId) : Stays (building id) :=
  stays_ask _

/-- Operations that change none may follow each other. -/
theorem stays_bind {b : Build α} {f : α → Build β} (hb : Stays b) (hf : ∀ a, Stays (f a)) :
  Stays (b >>= f)
  := by
  intro id w
  rw [exec_bind]
  cases h : (b.exec w).1 with
  | ok a => apply (hb id w).trans (hf a id _)
  | error e => apply hb id w

/-- Nothing follows a refusal. -/
theorem stays_throw_bind (e : BuildError) (f : α → Build β) :
  Stays ((throw e : Build α) >>= f)
  :=
  fun id w => Workspace.Grows.refl id w

/-- Both ways of a decision change none. -/
theorem stays_ite {c : Prop} [Decidable c] {b b' : Build α} (hb : Stays b) (hb' : Stays b') :
  Stays (if c then b else b')
  := by
  split
  · apply hb
  · apply hb'

/-- A change that adds no methods leaves the members as they are. -/
theorem stays_updateType
    (id : TypeId) {f : TypeDecl → TypeDecl} (hf : ∀ d, TypeDecl.Extends [] d (f d)) :
  Stays (updateType id f)
  := by
  intro x w
  have hgrows : w.Grows id [] (w.updated id f) := .untouched w hf
  refine ⟨hgrows.session, hgrows.finalized, hgrows.handles, fun y => ?_⟩
  have hy := hgrows.decl y
  rw [ite_self] at hy ⊢
  apply hy

theorem stays_invalid (id : TypeId) (reason : String) : Stays (invalid id reason : Build α) :=
  stays_bind stays_get fun _ => stays_throw _

/-! ## methods -/

/-- A body is emitted only for a method that there is. -/
theorem emitBody_ok
    {m : MethodRef} {target : Option Overridden} {body : Body ρ} {result : MethodBody × List ρ}
    (h : emitBody w m target body = .ok result) :
  ∃ method, methodDecl w m = .ok method
  := by
  obtain ⟨d, -, hrest⟩ := exists_of_bind_ok h
  obtain ⟨method, hmethod, -⟩ := exists_of_bind_ok hrest
  exact ⟨method, hmethod⟩

/-- A body is put into a method that there is. -/
theorem stays_putBody (m : MethodRef) (body : MethodBody) : Stays (putBody m body) :=
  stays_bind (stays_ask _) fun _ => stays_updateType _ fun d => .setBody d m.index body

/-- A body is put where the method is found. -/
theorem exec_putBody
    {m : MethodRef} {method : MethodDecl} (h : methodDecl w m = .ok method) (body : MethodBody) :
  (putBody m body).exec w = (.ok (), w.updated m.owner (·.setBody m.index body))
  := by
  rw [putBody]
  rw [exec_bind, exec_ask, h]
  rfl

/-- A workspace grows by the method that is added. -/
theorem grows_pushMethod
    {owner : TypeId} {d : TypeDecl} (hd : w.assembly.building owner = .ok d)
    (entry : MethodDecl) :
  w.Grows owner [entry] (w.updated owner (·.pushMethod entry))
  := by
  obtain ⟨hd, hstate⟩ := Assembly.building_ok hd
  apply Workspace.Grows.updated w
  · intro d'
    rfl
  · intro d' hd'
    rw [hd] at hd'
    cases hd'
    apply TypeDecl.Extends.push d entry hstate

/-- A method that has been reserved gets its body, or is taken back. -/
theorem completeMethod_outcome
    {owner : TypeId} {d : TypeDecl} (hd : w.assembly.building owner = .ok d) (entry : MethodDecl)
    (target : Option Overridden) (body : Body ρ) :
  (∃ answer w',
    (completeMethod (d.methodRef d.methods.length) target body).exec
        (w.updated owner (·.pushMethod entry)) = (.ok answer, w')
      ∧ w.Grows owner [entry] w')
  ∨ ∃ e w',
    (completeMethod (d.methodRef d.methods.length) target body).exec
        (w.updated owner (·.pushMethod entry)) = (.error e, w')
      ∧ w.Grows owner [] w'
  := by
  have hpush := grows_pushMethod hd entry
  obtain ⟨hd, -⟩ := Assembly.building_ok hd
  have howner : (d.methodRef d.methods.length).owner = owner := Assembly.decl?_id hd
  rw [completeMethod]
  rw [exec_bind, exec_get]
  dsimp only
  split
  · next result remarks hemit =>
    obtain ⟨method, hmethod⟩ := emitBody_ok hemit
    left
    rw [exec_bind, exec_putBody hmethod]
    refine ⟨_, _, rfl, ?_⟩
    apply hpush.trans
    rw [howner]
    exact .untouched _ fun d' => .setBody d' _ result
  · next e hemit =>
    right
    rw [exec_bind, exec_updateType]
    refine ⟨_, _, rfl, ?_⟩
    rw [howner]
    change w.Grows owner [] ((w.updated owner _).updated owner _)
    rw [Workspace.updated_updated w owner (·.pushMethod entry) fun _ => rfl]
    apply Workspace.Grows.updated w
    · intro d'
      apply TypeDecl.dropMethod_handle
    · intro d' hd'
      rw [hd] at hd'
      cases hd'
      apply TypeDecl.Extends.push_drop

/-- What is declared belongs to a type that is being built. -/
theorem declaration_ok
    {owner : TypeId} {name : String} {spec : MethodSpec} {kind : MethodKind} {m : MethodDecl}
    {target : Option Overridden} (h : w.declaration owner name spec kind = .ok (m, target)) :
  ∃ d, w.assembly.building owner = .ok d ∧ m = w.entry d.handle.kind name spec kind target
    ∧ (target = none ∨ w.findOverridden owner name spec = .ok target)
  := by
  rw [Workspace.declaration] at h
  dsimp only at h
  obtain ⟨-, h⟩ := of_guard_ok h
  obtain ⟨d, hd, h⟩ := exists_of_bind_ok h
  obtain ⟨-, h⟩ := of_guard_ok h
  refine ⟨d, hd, ?_⟩
  split at h
  · obtain ⟨-, h⟩ := of_guard_ok h
    cases h
    exact ⟨rfl, .inl rfl⟩
  · obtain ⟨target', htarget, h⟩ := exists_of_bind_ok h
    obtain ⟨-, h⟩ := of_guard_ok h
    cases h
    exact ⟨rfl, .inr htarget⟩

/-- A method is reserved at the end of a type that is being built, or nothing changes. -/
theorem exec_reserveMethod (owner : TypeId) (entry : MethodDecl) (w : Workspace) :
  (∃ e, (reserveMethod owner entry).exec w = (.error e, w))
  ∨ ∃ d, w.assembly.building owner = .ok d
    ∧ (reserveMethod owner entry).exec w
      = (.ok (d.methodRef d.methods.length), w.updated owner (·.pushMethod entry))
  := by
  rw [reserveMethod, building]
  rw [exec_bind, exec_ask]
  cases hd : w.assembly.building owner with
  | error e =>
      left
      exact ⟨e, rfl⟩
  | ok d =>
      dsimp only
      rw [exec_ite]
      split
      · left
        exact ⟨_, rfl⟩
      · right
        exact ⟨d, rfl, rfl⟩

/-- A method that is accepted adds the entry that its declaration came to; one that is
refused leaves the type as it was. -/
theorem defineMethod_outcome
    (owner : TypeId) (name : String) (spec : MethodSpec) (body : Body ρ) (kind : MethodKind)
    (w : Workspace) :
  (∃ answer w' entry target, (defineMethod owner name spec body kind).exec w = (.ok answer, w')
      ∧ w.declaration owner name spec kind = .ok (entry, target) ∧ w.Grows owner [entry] w')
  ∨ ∃ e w', (defineMethod owner name spec body kind).exec w = (.error e, w')
      ∧ w.Grows owner [] w'
  := by
  rw [defineMethod]
  rw [exec_bind, exec_ask]
  cases hdeclaration : w.declaration owner name spec kind with
  | error e =>
      right
      exact ⟨e, w, rfl, .refl owner w⟩
  | ok declared =>
      obtain ⟨entry, target⟩ := declared
      dsimp only
      rw [exec_bind]
      obtain ⟨e, hreserve⟩ | ⟨d, hd, hreserve⟩ := exec_reserveMethod owner entry w
      · right
        rw [hreserve]
        exact ⟨e, w, rfl, .refl owner w⟩
      · rw [hreserve]
        dsimp only
        rw [exec_ite]
        split
        · left
          exact ⟨_, _, entry, target, rfl, rfl, grows_pushMethod hd entry⟩
        · obtain ⟨answer, w', hexec, hgrows⟩ | ⟨e, w', hexec, hgrows⟩ :=
            completeMethod_outcome hd entry target body
          · left
            exact ⟨answer, w', entry, target, hexec, rfl, hgrows⟩
          · right
            exact ⟨e, w', hexec, hgrows⟩

/-- Defining a constructor adds the entry of its specification, or nothing. -/
theorem defineConstructor_outcome
    (owner : TypeId) (spec : ConstructorSpec) (body : Body ρ) (w : Workspace) :
  (∃ ms ⊆ [spec.entry], w.Grows owner ms ((defineConstructor owner spec body).exec w).2)
  := by
  have hrefused : ∃ ms ⊆ [spec.entry], w.Grows owner ms w :=
    ⟨[], List.nil_subset _, .refl owner w⟩
  rw [defineConstructor, building]
  rw [exec_bind, exec_ask]
  cases w.assembly.building owner with
  | error e => apply hrefused
  | ok d =>
      dsimp only
      rw [exec_ite]
      split
      · apply hrefused
      · rw [exec_ite]
        split
        · apply hrefused
        · rw [exec_bind]
          obtain ⟨e, hreserve⟩ | ⟨d, hd, hreserve⟩ := exec_reserveMethod owner spec.entry w
          · rw [hreserve]
            apply hrefused
          · rw [hreserve]
            dsimp only
            obtain ⟨answer, w', hexec, hgrows⟩ | ⟨e, w', hexec, hgrows⟩ :=
              completeMethod_outcome hd spec.entry none body
            · rw [hexec]
              exact ⟨_, List.Subset.refl _, hgrows⟩
            · rw [hexec]
              exact ⟨_, List.nil_subset _, hgrows⟩

/-! ## fields and properties -/

/-- A field is no method. -/
theorem stays_pushField (id : TypeId) (f : FieldDecl) : Stays (pushField id f) := by
  apply stays_bind (stays_building id)
  intro d
  apply stays_ite (stays_throw_bind _ _)
  apply stays_bind
  · apply stays_updateType
    intro d'
    exact ⟨rfl, rfl, rfl, rfl, by simp [TypeDecl.pushField], by simp⟩
  · intro _
    apply stays_pure

/-- Defining a field adds no method. -/
theorem stays_defineField (id : TypeId) (name : String) (t : TypeRef) (spec : FieldSpec) :
  Stays (defineField id name t spec)
  := by
  apply stays_ite (stays_throw_bind _ _)
  apply stays_bind (stays_building id)
  intro d
  cases d.handle.kind with
  | interfaceType => apply stays_pure
  | enumType p => apply stays_invalid
  | classType =>
      apply stays_ite (stays_invalid _ _)
      apply stays_bind (stays_pushField id _)
      intro f
      apply stays_pure

/-- Nor does defining a literal. -/
theorem stays_defineLiteral (id : TypeId) (name : String) (value : Option Int64) :
  Stays (defineLiteral id name value)
  := by
  apply stays_ite (stays_throw_bind _ _)
  apply stays_bind (stays_building id)
  intro d
  cases d.handle.kind with
  | interfaceType => apply stays_invalid
  | classType => apply stays_invalid
  | enumType p =>
      apply stays_ite (stays_invalid _ _)
      apply stays_bind (stays_pushField id _)
      intro f
      apply stays_bind
      · apply stays_updateType
        intro d'
        exact ⟨rfl, rfl, rfl, rfl, by simp, by simp⟩
      · intro _
        apply stays_pure

/-- Nor do the bodies of the accessors of an auto property. -/
theorem stays_accessorBodies
    (id : TypeId) (name : String) (t : TypeRef) (spec : PropertySpec ρ) :
  Stays (accessorBodies id name t spec)
  := by
  apply stays_bind (stays_building id)
  intro d
  dsimp only
  cases spec.accessors with
  | auto writable =>
      apply stays_ite (stays_pure _)
      apply stays_bind (stays_defineField id _ t _)
      intro f
      cases f with
      | none => apply stays_invalid
      | some f => apply stays_pure
  | custom getter setter =>
      cases getter with
      | some getter => apply stays_pure
      | none =>
          cases setter with
          | some setter => apply stays_pure
          | none => apply stays_invalid

/-- A type has got methods, one after another, that declarations without generic parameters
came to. -/
inductive Grown (owner : TypeId) (w : Workspace) : Workspace → Prop
  | refl : Grown owner w w
  | stays {w' w'' : Workspace} (h : Grown owner w w') (hgrows : w'.Grows owner [] w'') :
      Grown owner w w''
  | declares {w' w'' : Workspace} {name : String} {spec : MethodSpec} {kind : MethodKind}
      {m : MethodDecl} {target : Option Overridden} (h : Grown owner w w')
      (hspec : spec.genericParams = [])
      (hdeclared : w'.declaration owner name spec kind = .ok (m, target))
      (hgrows : w'.Grows owner [m] w'') :
      Grown owner w w''

/-- A type that has grown has done so by some methods. -/
theorem Grown.grows {owner : TypeId} {w' : Workspace} (h : Grown owner w w') :
  ∃ ms, w.Grows owner ms w'
  := by
  induction h with
  | refl => exact ⟨[], .refl owner w⟩
  | stays h hgrows ih =>
      obtain ⟨ms, hms⟩ := ih
      exact ⟨ms ++ [], hms.trans hgrows⟩
  | declares h hspec hdeclared hgrows ih =>
      obtain ⟨ms, hms⟩ := ih
      exact ⟨_, hms.trans hgrows⟩

/-- What changes no methods may come between. -/
theorem Stays.keeps_grown {b : Build α} (hb : Stays b) (owner : TypeId) (w : Workspace) :
  Keeps (Grown owner w) b
  := by
  intro w' hgrown
  apply hgrown.stays (hb owner w')

/-- An accessor adds at most its own entry. -/
theorem defineAccessor_keeps_grown
    {owner : TypeId} (w : Workspace) (name : String) {spec : MethodSpec}
    (hspec : spec.genericParams = []) (kind : MethodKind) (body : Option (Body ρ)) :
  Keeps (Grown owner w) (defineAccessor owner name spec kind body)
  := by
  intro w' hgrown
  cases body with
  | none => apply hgrown
  | some body =>
      rw [defineAccessor]
      rw [exec_bind]
      obtain ⟨answer, w'', entry, target, hexec, hdeclared, hmore⟩ | ⟨e, w'', hexec, hmore⟩ :=
        defineMethod_outcome owner name spec body kind w'
      · rw [hexec]
        apply hgrown.declares hspec hdeclared hmore
      · rw [hexec]
        apply hgrown.stays hmore

/-- A property adds its accessors. -/
theorem addProperty_keeps_grown
    (w : Workspace) (id : TypeId) (name : String) (t : TypeRef) (spec : PropertySpec ρ) :
  Keeps (Grown id w) (addProperty id name t spec)
  := by
  apply keeps_bind ((stays_accessorBodies id name t spec).keeps_grown id w)
  intro bodies
  apply keeps_bind
  · apply defineAccessor_keeps_grown w _ rfl
  · intro getter
    apply keeps_bind
    · apply defineAccessor_keeps_grown w _ rfl
    · intro setter
      apply Stays.keeps_grown
      apply stays_bind (stays_building id)
      intro d
      apply stays_bind
      · apply stays_updateType
        intro d'
        exact ⟨rfl, rfl, rfl, rfl, by simp [TypeDecl.pushProperty], by simp⟩
      · intro _
        apply stays_pure

/-- A property adds at most the entries of its accessors.  When any part is refused, the
type is left as it was. -/
theorem defineProperty_grown
    (id : TypeId) (name : String) (t : TypeRef) (spec : PropertySpec ρ) (w : Workspace) :
  Grown id w ((defineProperty id name t spec).exec w).2
  := by
  rw [defineProperty]
  dsimp only
  rw [exec_ite]
  split
  · apply Grown.refl
  · rw [building]
    rw [exec_bind, exec_ask]
    cases hd : w.assembly.building id with
    | error e => apply Grown.refl
    | ok d =>
        dsimp only
        simp only [exec_ite]
        split
        · apply (stays_invalid id _).keeps_grown id w w .refl
        · split
          · apply (stays_invalid id _).keeps_grown id w w .refl
          · split
            · apply Grown.refl
            · obtain ⟨hd, -⟩ := Assembly.building_ok hd
              have hgrown := addProperty_keeps_grown w id name t spec w .refl
              rw [exec_tryCatch]
              split
              · apply hgrown
              · obtain ⟨ms, hgrows⟩ := hgrown.grows
                apply Grown.refl.stays (hgrows.truncate hd _ _)

/-! ## other changes of a type -/

/-- Replacing a body adds no method. -/
theorem stays_replaceBody (m : MethodRef) (body : Body ρ) : Stays (replaceBody m body) := by
  rw [replaceBody, buildingMethod]
  apply stays_bind
  · apply stays_bind (stays_building m.owner)
    intro d
    split
    · apply stays_pure
    · apply stays_throw
  · intro method
    apply stays_bind stays_get
    intro w
    apply stays_ite (stays_throw_bind _ _)
    apply stays_bind (stays_ask _)
    intro target
    apply stays_bind (stays_ask _)
    intro result
    apply stays_bind (stays_putBody m _)
    intro _
    apply stays_pure

/-- Nor does an attribute of a method. -/
theorem stays_setMethodAttribute (m : MethodRef) (custom : CustomAttribute) :
  Stays (setMethodAttribute m custom)
  := by
  rw [setMethodAttribute, buildingMethod]
  apply stays_bind
  · apply stays_bind (stays_building m.owner)
    intro d
    split
    · apply stays_pure
    · apply stays_throw
  · intro method
    apply stays_updateType
    intro d
    apply TypeDecl.Extends.modify
    intro method
    rfl

/-- Nor does one of a type. -/
theorem stays_setTypeAttribute (id : TypeId) (custom : CustomAttribute) :
  Stays (setTypeAttribute id custom)
  := by
  apply stays_bind (stays_building id)
  intro d
  apply stays_updateType
  intro d
  exact ⟨rfl, rfl, rfl, rfl, by simp, by simp⟩

/-- Nor does an interface. -/
theorem stays_addInterface (id : TypeId) (interface : TypeRef) :
  Stays (addInterface id interface)
  := by
  apply stays_bind (stays_building id)
  intro d
  apply stays_ite (stays_throw_bind _ _)
  apply stays_bind (stays_ask _)
  intro _
  apply stays_updateType
  intro d'
  split
  · apply TypeDecl.Extends.refl
  · exact ⟨rfl, rfl, rfl, rfl, by simp, by simp⟩

/-- A base is accepted and set, or nothing changes. -/
theorem exec_setBase (id : TypeId) (base : TypeRef) (w : Workspace) :
  (∃ e, (setBase id base).exec w = (.error e, w))
  ∨ ∃ d base', w.assembly.building id = .ok d ∧ d.handle.kind = .classType
    ∧ base.definedId? ≠ some id ∧ w.acceptBase d.fullName base = .ok base'
    ∧ (setBase id base).exec w = (.ok (), w.updated id fun d => { d with base := base' })
  := by
  rw [setBase, building]
  rw [exec_bind, exec_ask]
  cases w.assembly.building id with
  | error e =>
      left
      exact ⟨e, rfl⟩
  | ok d =>
      dsimp only
      split
      · left
        exact ⟨_, rfl⟩
      · left
        exact ⟨_, rfl⟩
      · next hkind =>
        rw [exec_ite]
        split
        · left
          exact ⟨_, rfl⟩
        · next hself =>
          rw [exec_bind, exec_ask]
          cases hbase : w.acceptBase d.fullName base with
          | error e =>
              left
              exact ⟨e, rfl⟩
          | ok base' =>
              right
              exact ⟨d, base', rfl, hkind, hself, hbase, rfl⟩

/-! ## new types -/

/-- A type without methods has been added to a unit, under a number of its own. -/
structure Opens (decl : TypeDecl) (w w' : Workspace) : Prop where
  session : w'.session = { w.session with nextTypeId := w.session.nextTypeId + 1 }
  finalized : w'.assembly.finalized = w.assembly.finalized
  fresh : decl.id = ⟨w.session.nextTypeId⟩
  methods : decl.methods = []
  state : decl.state = .building
  handles : w'.assembly.types.map (·.handle) = w.assembly.types.map (·.handle) ++ [decl.handle]
  decl : ∀ x, Option.Rel (TypeDecl.Extends [])
    ((w.assembly.decl? x).or (if decl.id = x then some decl else none)) (w'.assembly.decl? x)

/-- A new type has the next number and nothing in it. -/
theorem newType_ok
    {name : String} {kind : TypeKind} {spec : TypeSpec} {enclosing : Option TypeId}
    {d : TypeDecl} (h : w.newType name kind spec enclosing = .ok d) :
  d.id = ⟨w.session.nextTypeId⟩ ∧ d.enclosing = enclosing ∧ d.members = [] ∧ d.methods = []
    ∧ d.state = .building
  := by
  rw [Workspace.newType] at h
  dsimp only at h
  obtain ⟨-, h⟩ := of_guard_ok h
  obtain ⟨-, h⟩ := of_guard_ok h
  obtain ⟨fullName, -, h⟩ := exists_of_bind_ok h
  obtain ⟨-, h⟩ := of_guard_ok h
  obtain ⟨base, -, h⟩ := exists_of_bind_ok h
  split at h
  all_goals
    obtain ⟨interfaces, -, h⟩ := exists_of_bind_ok h
    cases h
    exact ⟨rfl, rfl, rfl, rfl, rfl⟩

/-- A new type that is entered is open. -/
theorem Opens.of_enterType
    {d : TypeDecl} (hfresh : d.id = ⟨w.session.nextTypeId⟩)
    (hunused : ∀ e ∈ w.assembly.types, e.id ≠ d.id) (hmethods : d.methods = [])
    (hstate : d.state = .building) {w' : Workspace}
    (hgrows : (w.enterType d).Grows d.id [] w') :
  Opens d w w'
  := by
  obtain ⟨hsession, hfinalized, hhandles, hdecl⟩ := hgrows
  refine ⟨hsession, hfinalized, hfresh, hmethods, hstate, ?_, fun x => ?_⟩
  · rw [hhandles, Workspace.types_enterType hunused]
    simp
  · have hx := hdecl x
    rw [ite_self] at hx
    have happend : (w.enterType d).assembly.decl? x
        = (w.assembly.decl? x).or (if d.id = x then some d else none) := by
      simp only [Assembly.decl?, Workspace.types_enterType hunused, List.find?_append, List.find?_cons,
        List.find?_nil]
      by_cases hid : d.id = x <;> simp [hid, beq_eq_false_iff_ne.mpr]
    rw [← happend]
    apply hx

/-- A declaration that is refused changes nothing. -/
theorem declareType_outcome
    (hunused : ∀ e ∈ w.assembly.types, e.id ≠ ⟨w.session.nextTypeId⟩)
    (name : String) (kind : TypeKind) (spec : TypeSpec) (enclosing : Option TypeId) :
  ((declareType name kind spec enclosing).exec w).2 = w
  ∨ ∃ d, Opens d w ((declareType name kind spec enclosing).exec w).2
  := by
  rw [declareType]
  rw [exec_bind, exec_ask]
  cases hd : w.newType name kind spec enclosing with
  | error e =>
      left
      rfl
  | ok d =>
      right
      use d
      obtain ⟨hfresh, -, -, hmethods, hstate⟩ := newType_ok hd
      rw [← hfresh] at hunused
      apply Opens.of_enterType hfresh hunused hmethods hstate
      cases enclosing with
      | none => apply Workspace.Grows.refl
      | some outer =>
          have hnested : Stays (updateType outer fun o => { o with nested := o.nested ++ [d.id] }) := by
            apply stays_updateType
            intro o
            exact ⟨rfl, rfl, rfl, rfl, by simp, by simp⟩
          apply hnested d.id (w.enterType d)

end Build

end ManagedCode
