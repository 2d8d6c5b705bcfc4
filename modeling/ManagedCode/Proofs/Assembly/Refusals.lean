import ManagedCode.Proofs.Assembly.Additions

/-!
# Operations that are refused

An operation on a unit that is refused, at whatever point, leaves the unit and its session
exactly as they were (`Project.refused_change`); one that is accepted declares a type, changes
one open type, whose members of each kind are those that there were with others behind them, or
realizes the unit (`Workspace.Accepts`).  A method that is taken back takes its entries with it
because an entry of a method always belongs to a method that there is.
-/

namespace ManagedCode

variable {ρ α β : Type} {w w' : Workspace}

/-- An operation with the handles that it hands back. -/
def Change.build : Change ρ → Build (List Handle)
  | declareType name kind spec enclosing =>
    (fun id => [.type id]) <$> Build.declareType name kind spec enclosing
  | setBase id base => (fun _ => []) <$> Build.setBase id base
  | addInterface id interface => (fun _ => []) <$> Build.addInterface id interface
  | defineField id name t spec =>
    (fun f => f.toList.map .field) <$> Build.defineField id name t spec
  | defineLiteral id name value => (fun f => [.field f]) <$> Build.defineLiteral id name value
  | defineMethod owner name spec body =>
    (fun r => [.method r.1]) <$> Build.defineMethod owner name spec body .method
  | defineConstructor owner spec body =>
    (fun r => [.method r.1]) <$> Build.defineConstructor owner spec body
  | defineProperty id name t spec => (fun r => r.1.handles) <$> Build.defineProperty id name t spec
  | replaceBody m body => (fun _ => []) <$> Build.replaceBody m body
  | setMethodAttribute m custom => (fun _ => []) <$> Build.setMethodAttribute m custom
  | setTypeAttribute id custom => (fun _ => []) <$> Build.setTypeAttribute id custom
  | finalize => (fun _ => []) <$> Build.finalize

/-- A map changes the answer and nothing else. -/
theorem exec_map (f : α → β) (b : Build α) (w : Workspace) :
  (f <$> b).exec w = ((b.exec w).1.map f, (b.exec w).2)
  := by
  rw [← bind_pure_comp, exec_bind]
  cases (b.exec w).1 <;> rfl

/-- What an operation leaves. -/
theorem Change.perform_eq (c : Change ρ) (w : Workspace) : c.perform w = (c.build.exec w).2 := by
  cases c <;>
  · rw [perform, build, exec_map]

/-! ## Members that stay -/

namespace TypeDecl

variable {d d' : TypeDecl}

/-- What a type is apart from its members, the types that it refers to, and its state. -/
def place (d : TypeDecl) : TypeDecl :=
  { d.outline with base := none, interfaces := [], nested := [], state := .building }

/-- A type has kept its members of each kind, and others may have come behind them; methods may
have got other bodies. -/
structure Prolongs (d d' : TypeDecl) : Prop where
  place : d'.place = d.place
  fields : d.fields <+: d'.fields
  methods : d.methods.map (·.head) <+: d'.methods.map (·.head)
  properties : d.properties <+: d'.properties

/-- A declaration may stay as it is. -/
theorem Prolongs.refl (d : TypeDecl) : d.Prolongs d :=
  ⟨rfl, List.prefix_rfl, List.prefix_rfl, List.prefix_rfl⟩

/-- What has been prolonged may be so again. -/
theorem Prolongs.trans {d'' : TypeDecl} (h : d.Prolongs d') (h' : d'.Prolongs d'') :
  d.Prolongs d''
  :=
  ⟨h'.place.trans h.place, h.fields.trans h'.fields, h.methods.trans h'.methods,
    h.properties.trans h'.properties⟩

/-- A prolonged declaration has the same number. -/
theorem Prolongs.id_eq (h : d.Prolongs d') : d'.id = d.id :=
  (congrArg TypeDecl.id h.place :)

/-- Additions prolong a declaration. -/
theorem Appends.prolongs (h : d.Appends d') : d.Prolongs d' :=
  ⟨(congrArg TypeDecl.place h.rest :), h.fields, h.methods.map _,
    h.properties ▸ List.prefix_rfl⟩

/-- So does a property. -/
theorem prolongs_pushProperty (d : TypeDecl) (p : PropertyDecl) : d.Prolongs (d.pushProperty p) :=
  ⟨rfl, List.prefix_rfl, List.prefix_rfl, List.prefix_append _ _⟩

/-- Changing what is not settled of one method. -/
theorem prolongs_modify (d : TypeDecl) (index : Nat) {f : MethodDecl → MethodDecl}
    (hf : ∀ m, (f m).head = m.head) :
  d.Prolongs { d with methods := d.methods.modify index f }
  := by
  have hheads := (TypeDecl.Extends.modify d index f hf).methods
  rw [List.map_nil, List.append_nil] at hheads
  exact ⟨rfl, List.prefix_rfl, hheads ▸ List.prefix_rfl, List.prefix_rfl⟩

/-- A property has no entry of a method. -/
theorem Indexed.pushProperty (h : d.Indexed) (p : PropertyDecl) : (d.pushProperty p).Indexed := by
  intro entry hentry index hindex
  obtain hold | hnew := List.mem_append.mp hentry
  · apply h entry hold index hindex
  · rw [List.mem_singleton.mp hnew] at hindex
    cases hindex

/-- A change of a method leaves the indices. -/
theorem Indexed.modify (h : d.Indexed) (index : Nat) (f : MethodDecl → MethodDecl) :
  Indexed { d with methods := d.methods.modify index f }
  := by
  intro entry hentry i hi
  rw [List.length_modify]
  apply h entry hentry i hi

end TypeDecl

/-! ## Operations that are accepted or refused -/

/-- What an operation comes to that is accepted, with the handles that it hands back. -/
inductive Workspace.Accepts (w : Workspace) (handles : List Handle) (w' : Workspace) : Prop
  | stays (hhandles : handles = []) (heq : w' = w)
  | adds (d d' : TypeDecl) (h : w.Editable d) (hprolongs : d.Prolongs d')
      (hstate : d'.state = d.state) (hindexed : d'.Indexed) (hhas : ∀ h ∈ handles, d'.Has h)
      (heq : w' = w.redefining d')
  | declares (d : TypeDecl) (h : w.Declares d) (hmembers : d.members = [])
      (hhandles : handles = [.type d.id]) (heq : w' = w.declaring d)
  | realizes (new : List RealizedType) (unit : FinalizedUnit) (h : w.Realizes new)
      (hhandles : handles = []) (heq : w' = { w.realizing new with
        assembly := { (w.realizing new).assembly with finalized := some unit } })

namespace Build

open Workspace

/-- An operation is accepted, or it is refused and leaves the workspace as it was. -/
def Settles (w : Workspace) (b : Build (List Handle)) : Prop :=
  (∃ e, b.exec w = (.error e, w)) ∨ ∃ handles w', b.exec w = (.ok handles, w') ∧ w.Accepts handles w'

/-- A refusal that leaves the workspace as it is settles an operation. -/
theorem settles_error
    {e : BuildError} {b : Build α} (f : α → List Handle) (h : b.exec w = (.error e, w)) :
  Settles w (f <$> b)
  := by
  left
  refine ⟨e, ?_⟩
  rw [exec_map, h]
  rfl

/-- So does success with what has been accepted. -/
theorem settles_ok
    {a : α} {b : Build α} (f : α → List Handle) (h : b.exec w = (.ok a, w'))
    (haccepts : w.Accepts (f a) w') :
  Settles w (f <$> b)
  := by
  right
  refine ⟨f a, w', ?_, haccepts⟩
  rw [exec_map, h]
  rfl

variable {d d' : TypeDecl}

/-- Changing a type that is open, but not its members. -/
theorem accepts_updated
    (h : w.Editable d) {f : TypeDecl → TypeDecl} (hprolongs : d.Prolongs (f d))
    (hstate : (f d).state = d.state) (hindexed : (f d).Indexed) :
  w.Accepts [] (w.updated d.id f)
  := by
  apply Workspace.Accepts.adds d (f d) h hprolongs hstate hindexed (by simp)
  apply h.updated_eq hprolongs.id_eq

/-- An operation is refused unless the type is open. -/
def Needs (id : TypeId) (b : Build α) : Prop :=
  ∀ {w : Workspace} {e : BuildError}, w.assembly.building id = .error e →
    ∃ e', b.exec w = (.error e', w)

/-- What asks for a type that is being built needs one. -/
theorem needs_building {id : TypeId} (f : TypeDecl → Build α) : Needs id (building id >>= f) := by
  intro w e he
  refine ⟨e, ?_⟩
  rw [building, exec_bind, exec_ask, he]

/-- A guard before it needs one as well. -/
theorem needs_guard
    {id : TypeId} {c : Prop} [Decidable c] {e : BuildError} {f : β → Build α} {b : Build α}
    (hb : Needs id b) :
  Needs id (if c then (throw e : Build β) >>= f else b)
  := by
  split
  · intro w _ _
    exact ⟨e, rfl⟩
  · exact hb

/-- Defining a method needs a type that is being built. -/
theorem needs_defineMethod
    (id : TypeId) (name : String) (spec : MethodSpec) (body : Body ρ) (kind : MethodKind) :
  Needs id (defineMethod id name spec body kind)
  := by
  intro w e he
  rw [defineMethod]
  rw [exec_bind, exec_ask]
  cases hdeclared : w.declaration id name spec kind with
  | error e' => exact ⟨e', rfl⟩
  | ok declared =>
      obtain ⟨d, hd, -⟩ := declaration_ok hdeclared
      rw [he] at hd
      cases hd

/-- An operation on one type. -/
theorem Needs.settles
    {id : TypeId} {b : Build α} {f : α → List Handle} (hb : Needs id b) (horderly : w.Orderly)
    (hopen : ∀ d, w.Editable d → d.id = id → Settles w (f <$> b)) :
  Settles w (f <$> b)
  := by
  cases hd : w.assembly.building id with
  | error e =>
      obtain ⟨e', hexec⟩ := hb hd
      apply settles_error f hexec
  | ok d =>
      obtain ⟨heditable, hid⟩ := horderly.editable hd
      apply hopen d heditable hid

/-- An operation that adds one part to a type. -/
theorem Adding.settles
    {id : TypeId} {b : Build α} {handles : α → List Handle} (hb : Adding id handles b)
    (hneeds : Needs id b) (horderly : w.Orderly) :
  Settles w (handles <$> b)
  := by
  apply hneeds.settles horderly
  intro d h hid
  obtain ⟨e, hexec⟩ | ⟨a, d', hexec, happends, hindexed, hhas⟩ := hb h hid
  · apply settles_error handles hexec
  · apply settles_ok handles hexec
    apply Workspace.Accepts.adds d d' h happends.prolongs happends.state hindexed hhas rfl

/-- A base is set, or nothing changes. -/
theorem settles_setBase (horderly : w.Orderly) (id : TypeId) (base : TypeRef) :
  Settles w ((fun _ => []) <$> setBase id base)
  := by
  obtain ⟨e, hexec⟩ | ⟨d, base, hd, -, -, -, hexec⟩ := exec_setBase id base w
  · apply settles_error _ hexec
  · apply settles_ok _ hexec
    obtain ⟨h, rfl⟩ := horderly.editable hd
    exact accepts_updated h (f := fun d => { d with base := base })
      ⟨rfl, List.prefix_rfl, List.prefix_rfl, List.prefix_rfl⟩ rfl h.self_indexed

/-- An interface is added, or nothing changes. -/
theorem settles_addInterface (horderly : w.Orderly) (id : TypeId) (interface : TypeRef) :
  Settles w ((fun _ => []) <$> addInterface id interface)
  := by
  obtain ⟨e, hexec⟩ | ⟨d, hd, -, -, hexec⟩ := exec_addInterface id interface w
  · apply settles_error _ hexec
  · apply settles_ok _ hexec
    obtain ⟨h, rfl⟩ := horderly.editable hd
    rw [implementing]
    apply accepts_updated h
    · split
      · apply TypeDecl.Prolongs.refl
      · exact ⟨rfl, List.prefix_rfl, List.prefix_rfl, List.prefix_rfl⟩
    · split <;> rfl
    · split
      · apply h.self_indexed
      · exact h.self_indexed

/-- A type is declared, or nothing changes. -/
theorem settles_declareType
    (hfresh : w.Fresh) (name : String) (kind : TypeKind) (spec : TypeSpec) (enclosing : Option TypeId) :
  Settles w ((fun id => [.type id]) <$> declareType name kind spec enclosing)
  := by
  obtain ⟨e, hexec⟩ | ⟨d, hd, hexec⟩ := exec_declareType name kind spec enclosing w
  · apply settles_error _ hexec
  · apply settles_ok _ hexec
    obtain ⟨-, -, hmembers, -⟩ := newType_ok hd
    apply Workspace.Accepts.declares d (declares_of_newType hfresh hd) hmembers rfl rfl

/-- The next literal is set together with the field. -/
theorem updated_pushField (h : w.Editable d) (f : FieldDecl) (next : Int64) :
  (w.redefining (d.pushField f)).updated d.id (fun d => { d with nextLiteral := next })
    = w.redefining { d.pushField f with nextLiteral := next }
  := by
  have hw' : (w.redefining (d.pushField f)).Editable (d.pushField f) :=
    h.redefining rfl rfl (h.self_indexed.pushField f)
  exact (hw'.updated_eq (f := fun d => { d with nextLiteral := next }) rfl).trans
    (redefining_redefining rfl)

/-- A literal is a field, and tells the value of the next one. -/
theorem exec_defineLiteral (h : w.Editable d) (name : String) (value : Option Int64) :
  (∃ e, (defineLiteral d.id name value).exec w = (.error e, w))
  ∨ ∃ f next, (defineLiteral d.id name value).exec w
      = (.ok (d.fieldRef d.fields.length), w.redefining { d.pushField f with nextLiteral := next })
  := by
  rw [defineLiteral]
  rw [exec_ite]
  split
  · left
    exact ⟨_, rfl⟩
  · rw [exec_bind, exec_building h]
    dsimp only
    split
    · rw [exec_ite]
      split
      · left
        exact refusing_invalid _ _ w
      · rw [exec_bind]
        obtain ⟨e, hexec⟩ | hexec := exec_pushField h _
        · left
          refine ⟨e, ?_⟩
          rw [hexec]
        · right
          rw [hexec]
          dsimp only
          rw [exec_bind, exec_updateType]
          exact ⟨_, _, congrArg _ (updated_pushField h _ _)⟩
    · left
      exact refusing_invalid _ _ w

/-- A literal is defined, or nothing changes. -/
theorem settles_defineLiteral
    (horderly : w.Orderly) (id : TypeId) (name : String) (value : Option Int64) :
  Settles w ((fun f => [.field f]) <$> defineLiteral id name value)
  := by
  have hneeds : Needs id (defineLiteral id name value) := needs_guard (needs_building _)
  apply hneeds.settles horderly
  rintro d h rfl
  obtain ⟨e, hexec⟩ | ⟨f, next, hexec⟩ := exec_defineLiteral h name value
  · apply settles_error _ hexec
  · apply settles_ok _ hexec
    have happends := d.appends_pushField f
    apply Workspace.Accepts.adds d { d.pushField f with nextLiteral := next } h
      ⟨rfl, happends.fields, happends.prolongs.methods, List.prefix_rfl⟩ rfl
      (h.self_indexed.pushField f) _ rfl
    intro handle hhandle
    rw [List.mem_singleton.mp hhandle]
    exact has_pushField d f

/-- A property is defined with all its parts, or nothing changes. -/
theorem settles_defineProperty
    (horderly : w.Orderly) (id : TypeId) (name : String) (t : TypeRef) (spec : PropertySpec ρ) :
  Settles w ((fun r => r.1.handles) <$> defineProperty id name t spec)
  := by
  have hneeds : Needs id (defineProperty id name t spec) := needs_guard (needs_building _)
  apply hneeds.settles horderly
  rintro d h rfl
  obtain ⟨e, hexec⟩ | ⟨r, remarks, p, d', hexec, happends, hindexed, hhas⟩ :=
    exec_defineProperty h name t spec
  · apply settles_error _ hexec
  · apply settles_ok _ hexec
    exact Workspace.Accepts.adds d _ h (happends.prolongs.trans (d'.prolongs_pushProperty p))
      happends.state (hindexed.pushProperty p) hhas rfl

/-! ## Bodies and attributes -/

/-- A method of a type that is being built is found and nothing changes, or there is a refusal. -/
theorem exec_buildingMethod (m : MethodRef) (w : Workspace) :
  (∃ e, (buildingMethod m).exec w = (.error e, w))
  ∨ ∃ d method, w.assembly.building m.owner = .ok d ∧ (buildingMethod m).exec w = (.ok method, w)
  := by
  rw [buildingMethod, building]
  rw [exec_bind, exec_ask]
  cases hd : w.assembly.building m.owner with
  | error e =>
      left
      exact ⟨e, rfl⟩
  | ok d =>
      dsimp only
      split
      · next method _ =>
        right
        exact ⟨d, method, rfl, rfl⟩
      · left
        exact ⟨_, rfl⟩

/-- A method gets another body, or nothing changes. -/
theorem exec_replaceBody (m : MethodRef) (body : Body ρ) (w : Workspace) :
  (∃ e, (replaceBody m body).exec w = (.error e, w))
  ∨ ∃ d result remarks, w.assembly.building m.owner = .ok d
    ∧ (replaceBody m body).exec w = (.ok remarks, w.updated m.owner (·.setBody m.index result))
  := by
  rw [replaceBody]
  rw [exec_bind]
  obtain ⟨e, hexec⟩ | ⟨d, method, hd, hexec⟩ := exec_buildingMethod m w
  · left
    refine ⟨e, ?_⟩
    rw [hexec]
  · rw [hexec]
    dsimp only
    rw [exec_bind, exec_get]
    dsimp only
    rw [exec_ite]
    split
    · left
      exact ⟨_, rfl⟩
    · rw [exec_bind, exec_ask]
      cases overriddenOf w method with
      | error e =>
          left
          exact ⟨e, rfl⟩
      | ok target =>
          dsimp only
          rw [exec_bind, exec_ask]
          cases hemit : emitBody w m target body with
          | error e =>
              left
              exact ⟨e, rfl⟩
          | ok emitted =>
              obtain ⟨result, remarks⟩ := emitted
              obtain ⟨_, hmethod⟩ := emitBody_ok hemit
              right
              refine ⟨d, result, remarks, hd, ?_⟩
              dsimp only
              rw [exec_bind, exec_putBody hmethod]
              rfl

/-- A body is replaced, or nothing changes. -/
theorem settles_replaceBody (horderly : w.Orderly) (m : MethodRef) (body : Body ρ) :
  Settles w ((fun _ => []) <$> replaceBody m body)
  := by
  obtain ⟨e, hexec⟩ | ⟨d, result, remarks, hd, hexec⟩ := exec_replaceBody m body w
  · apply settles_error _ hexec
  · apply settles_ok _ hexec
    obtain ⟨h, hid⟩ := horderly.editable hd
    rw [← hid]
    exact accepts_updated h (f := (·.setBody m.index result))
      (d.prolongs_modify m.index fun _ => rfl) rfl (h.self_indexed.modify m.index _)

/-- An attribute of a method is set, or nothing changes. -/
theorem settles_setMethodAttribute (horderly : w.Orderly) (m : MethodRef) (custom : CustomAttribute) :
  Settles w ((fun _ => []) <$> setMethodAttribute m custom)
  := by
  obtain ⟨e, hexec⟩ | ⟨d, method, hd, hexec⟩ := exec_buildingMethod m w
  · apply settles_error (e := e)
    rw [setMethodAttribute, exec_bind, hexec]
  · obtain ⟨h, hid⟩ := horderly.editable hd
    have hdone : (setMethodAttribute m custom).exec w = (.ok (), w.updated m.owner fun d =>
        { d with methods := d.methods.modify m.index fun method =>
            { method with customAttributes := method.customAttributes ++ [custom] } }) := by
      rw [setMethodAttribute, exec_bind, hexec]
      rfl
    apply settles_ok _ hdone
    rw [← hid]
    exact accepts_updated h (d.prolongs_modify m.index fun _ => rfl) rfl
      (h.self_indexed.modify m.index _)

/-- So is one of a type. -/
theorem settles_setTypeAttribute (horderly : w.Orderly) (id : TypeId) (custom : CustomAttribute) :
  Settles w ((fun _ => []) <$> setTypeAttribute id custom)
  := by
  have hneeds : Needs id (setTypeAttribute id custom) := needs_building _
  apply hneeds.settles horderly
  rintro d h rfl
  have hdone : (setTypeAttribute d.id custom).exec w = (.ok (), w.updated d.id fun d =>
      { d with customAttributes := d.customAttributes ++ [custom] }) := by
    rw [setTypeAttribute, exec_bind, exec_building h]
    rfl
  apply settles_ok _ hdone
  exact accepts_updated h ⟨rfl, List.prefix_rfl, List.prefix_rfl, List.prefix_rfl⟩ rfl
    h.self_indexed

/-! ## Finalizing -/

/-- A unit is finalized, or nothing changes. -/
theorem settles_finalize (hfresh : w.Fresh) : Settles w ((fun _ => []) <$> finalize) := by
  obtain hsame | ⟨new, unit, hnew, -, hexec⟩ := finalize_outcome hfresh
  · cases hanswer : (finalize.exec w).1 with
    | error e => apply settles_error _ (Prod.ext hanswer hsame)
    | ok unit =>
        apply settles_ok _ (Prod.ext hanswer hsame)
        apply Workspace.Accepts.stays rfl rfl
  · apply settles_ok _ hexec
    apply Workspace.Accepts.realizes new unit hnew rfl rfl

end Build

/-- Each operation is accepted, or it is refused and leaves the workspace as it was. -/
theorem Change.settles (c : Change ρ) (horderly : w.Orderly) : Build.Settles w c.build := by
  cases c with
  | declareType name kind spec enclosing => apply Build.settles_declareType horderly.toFresh
  | setBase id base => apply Build.settles_setBase horderly
  | addInterface id interface => apply Build.settles_addInterface horderly
  | defineField id name t spec =>
      apply Build.Adding.settles (Build.adding_defineField id name t spec) _ horderly
      exact Build.needs_guard (Build.needs_building _)
  | defineLiteral id name value => apply Build.settles_defineLiteral horderly
  | defineMethod owner name spec body =>
      apply Build.Adding.settles (Build.adding_defineMethod owner name spec body .method) _ horderly
      apply Build.needs_defineMethod
  | defineConstructor owner spec body =>
      apply Build.Adding.settles (Build.adding_defineConstructor owner spec body) _ horderly
      apply Build.needs_building
  | defineProperty id name t spec => apply Build.settles_defineProperty horderly
  | replaceBody m body => apply Build.settles_replaceBody horderly
  | setMethodAttribute m custom => apply Build.settles_setMethodAttribute horderly
  | setTypeAttribute id custom => apply Build.settles_setTypeAttribute horderly
  | finalize => apply Build.settles_finalize horderly.toFresh

/-! ## What every lifetime keeps -/

namespace Workspace

variable {handles : List Handle}

/-- The types of a unit go on to list their methods properly. -/
theorem Accepts.indexed (h : w.Accepts handles w') (hw : ∀ d ∈ w.assembly.types, d.Indexed) :
  ∀ d ∈ w'.assembly.types, d.Indexed
  := by
  cases h with
  | stays hhandles heq =>
      rw [heq]
      exact hw
  | adds d d' h hprolongs hstate hindexed hhas heq =>
      rw [heq]
      intro e he
      obtain rfl | he := mem_redefining he
      · apply hindexed
      · apply hw e he
  | declares d h hmembers hhandles heq =>
      have hnew : d.Indexed := by
        intro entry hentry
        rw [hmembers] at hentry
        cases hentry
      have hentered : ∀ e ∈ (w.enterType d).assembly.types, e.Indexed := by
        intro e he
        obtain he | rfl := mem_enterType he
        · apply hw e he
        · exact hnew
      rw [heq, declaring]
      split
      · intro e he
        obtain ⟨e₀, he₀, rfl⟩ := List.mem_map.mp he
        split
        · exact hentered e₀ he₀
        · apply hentered e₀ he₀
      · exact hentered
  | realizes new unit h hhandles heq =>
      rw [heq]
      intro e he
      change e ∈ (w.realizing new).assembly.types at he
      rw [types_realizing] at he
      obtain ⟨e₀, he₀, rfl⟩ := List.mem_map.mp he
      split
      · exact hw e₀ he₀
      · apply hw e₀ he₀

end Workspace

namespace Project

variable {p : Project} {i : Nat} {a : Assembly}

/-- The types of all units list their methods properly. -/
def Indexed (p : Project) : Prop :=
  ∀ (i : Nat) (a : Assembly), p.units[i]? = some a → ∀ d ∈ a.types, d.Indexed

/-- The units of a project are orderly. -/
theorem Indexed.orderly (h : p.Indexed) (hsound : p.Sound) (ha : p.units[i]? = some a) :
  (p.workspace a).Orderly
  :=
  { hsound.fresh ha with indexed := h i a ha }

/-- Whatever a project turns into is indexed. -/
theorem Indexed.turns {q : Project} (h : p.Indexed) (hsound : p.Sound) (hq : p.Turns ρ q) :
  q.Indexed
  := by
  cases hq with
  | stays => exact h
  | registers registry => exact h
  | opens name =>
      intro j b hb
      obtain hb | rfl := open_cases hb
      · apply h j b hb
      · rintro d ⟨⟩
  | @changes i a ha c =>
      intro j b hb
      obtain ⟨-, rfl⟩ | ⟨-, hb⟩ := put_cases ha hb
      · rw [c.perform_eq]
        obtain ⟨e, hexec⟩ | ⟨handles, w', hexec, haccepts⟩ := c.settles (h.orderly hsound ha)
        · rw [hexec]
          apply h i a ha
        · rw [hexec]
          apply haccepts.indexed (h i a ha)
      · apply h j b hb

/-- Throughout the lifetime of a session, types list their methods properly. -/
theorem indexed_run (verify : Bool) (history : List (HostEvent ρ)) :
  ((empty verify).run history).Indexed
  := by
  apply run_induction verify
  · rintro i a ⟨⟩
  · intro p q hsound h hq
    apply h.turns hsound hq
  · intro p h
    exact h

/-- In every history all units are orderly. -/
theorem orderly_run
    (verify : Bool) (history : List (HostEvent ρ)) (ha : ((empty verify).run history).units[i]? = some a) :
  (((empty verify).run history).workspace a).Orderly
  :=
  (indexed_run verify history).orderly ((sound_empty verify).run history) ha

/-! ## Operations that are refused -/

/-- An operation that is refused, at whatever point, leaves the unit and the session exactly as
they were: all declarations, the names and the list of types at the top level, and the registry,
the realized types and the next number of the session.  So the project stays as it was. -/
theorem refused_change
    (verify : Bool) (history : List (HostEvent ρ)) (c : Change ρ) {e : BuildError}
    (ha : ((empty verify).run history).units[i]? = some a)
    (hrefused : (c.build.exec (((empty verify).run history).workspace a)).1 = .error e) :
  (c.build.exec (((empty verify).run history).workspace a)).2
    = ((empty verify).run history).workspace a
  ∧ ((empty verify).run history).apply (.change i c) = (empty verify).run history
  := by
  have hsame : (c.build.exec (((empty verify).run history).workspace a)).2
      = ((empty verify).run history).workspace a := by
    obtain ⟨e', hexec⟩ | ⟨handles, w', hexec, -⟩ := c.settles (orderly_run verify history ha)
    · rw [hexec]
    · rw [hexec] at hrefused
      cases hrefused
  refine ⟨hsame, ?_⟩
  rw [apply]
  rw [ha]
  dsimp only
  rw [c.perform_eq, hsame, put_self ha]

/-- A unit with one class. -/
def lonely : List (HostEvent Unit) :=
  [ .build (.openUnit "A"),
    .build (.change 0 (.declareType "P" .classType {} none))]

/-- A property of the class with the given setter. -/
def counting (setter : Option (Body Unit)) : Change Unit :=
  .defineProperty ⟨1⟩ "Count" (.primitive .i32) { accessors := .custom (some .minimal) setter }

/-- The setter of a property is refused because its body does not return, when the getter has
been defined already; nothing is left of the getter. -/
theorem refused_counting :
  ∃ a, ((empty true).run lonely).units[0]? = some a
    ∧ ((counting none).build.exec (((empty true).run lonely).workspace a)).1
        = .ok [.property ⟨⟨1⟩, 0, some ⟨⟨1⟩, 0⟩, none, none⟩, .method ⟨⟨1⟩, 0⟩]
    ∧ ((counting (some (.ofEmitter id))).build.exec (((empty true).run lonely).workspace a)).1
        = .error (.emission (.fallOffEnd "P::set_Count"))
    ∧ ((counting (some (.ofEmitter id))).build.exec (((empty true).run lonely).workspace a)).2
        = ((empty true).run lonely).workspace a
  := by
  obtain ⟨a, ha, hgetter, hrefused⟩ : ∃ a, ((empty true).run lonely).units[0]? = some a
      ∧ ((counting none).build.exec (((empty true).run lonely).workspace a)).1
        = .ok [.property ⟨⟨1⟩, 0, some ⟨⟨1⟩, 0⟩, none, none⟩, .method ⟨⟨1⟩, 0⟩]
      ∧ ((counting (some (.ofEmitter id))).build.exec (((empty true).run lonely).workspace a)).1
        = .error (.emission (.fallOffEnd "P::set_Count")) := by
    refine ⟨_, rfl, ?_, ?_⟩ <;> decide +kernel
  exact ⟨a, ha, hgetter, hrefused, (refused_change true lonely _ ha hrefused).1⟩

end Project

end ManagedCode
