import ManagedCode.Proofs.Assembly.Lifetimes

/-!
# Additions to a type

Fields and methods are appended to a type (`TypeDecl.Appends`), and cutting the type back to the
counts that it had before leaves the type that there was.  An operation that adds one part to an
open type adds all of it, or it fails and leaves the workspace as it was (`Build.Adding`).  A
property whose parts have been added is cut back when it is refused, so that it leaves nothing
either.
-/

namespace ManagedCode

variable {ρ α β : Type}

/-- What an operation hands back to its caller. -/
inductive Handle where
  | type (id : TypeId)
  | method (m : MethodRef)
  | field (f : FieldRef)
  | property (p : PropertyRef)
deriving DecidableEq, Repr

/-- All that the definition of a property hands back. -/
def PropertyRef.handles (r : PropertyRef) : List Handle :=
  .property r :: (r.getter.toList.map .method ++ r.setter.toList.map .method
    ++ r.backingField.toList.map .field)

/-! ## Types to which members have been appended -/

namespace TypeDecl

/-- The entries of methods among all members are those of methods that there are. -/
def Indexed (d : TypeDecl) : Prop :=
  ∀ entry ∈ d.members, ∀ index, entry.isOfMethod index = true → index < d.methods.length

/-- Fields and methods have been appended to a type, and nothing else has changed. -/
structure Appends (d d' : TypeDecl) : Prop where
  fields : d.fields <+: d'.fields
  methods : d.methods <+: d'.methods
  members : d.members <+: d'.members
  rest : { d' with fields := d.fields, methods := d.methods, members := d.members } = d

/-- A handle is that of a type or of a member that the type has. -/
def Has (d : TypeDecl) : Handle → Prop
  | .type id => d.id = id
  | .method m => d.id = m.owner ∧ m.index < d.methods.length
  | .field f => d.id = f.owner ∧ f.index < d.fields.length
  | .property p => d.id = p.owner ∧ p.index < d.properties.length

variable {d d' d'' : TypeDecl}

namespace Appends

/-- A declaration may stay as it is. -/
theorem refl (d : TypeDecl) : d.Appends d :=
  ⟨List.prefix_rfl, List.prefix_rfl, List.prefix_rfl, rfl⟩

/-- Additions may follow each other. -/
theorem trans (h : d.Appends d') (h' : d'.Appends d'') : d.Appends d'' := by
  refine ⟨h.fields.trans h'.fields, h.methods.trans h'.methods, h.members.trans h'.members, ?_⟩
  have hrest := congrArg (fun e : TypeDecl =>
    { e with fields := d.fields, methods := d.methods, members := d.members }) h'.rest
  exact hrest.trans h.rest

/-- Additions keep the handle. -/
theorem handle (h : d.Appends d') : d'.handle = d.handle :=
  (congrArg TypeDecl.handle h.rest :)

/-- They keep the number. -/
theorem id_eq (h : d.Appends d') : d'.id = d.id :=
  congrArg DefinedType.id h.handle

/-- They keep the state. -/
theorem state (h : d.Appends d') : d'.state = d.state :=
  (congrArg TypeDecl.state h.rest :)

/-- They are made beside the properties. -/
theorem properties (h : d.Appends d') : d'.properties = d.properties :=
  (congrArg TypeDecl.properties h.rest :)

/-- Cutting a type back to what it had before members were appended. -/
theorem truncate (h : d.Appends d') :
  d'.truncate d.fields.length d.methods.length d.members.length = d
  := by
  rw [TypeDecl.truncate]
  rw [← List.prefix_iff_eq_take.mp h.fields, ← List.prefix_iff_eq_take.mp h.methods,
    ← List.prefix_iff_eq_take.mp h.members]
  apply h.rest

/-- A type keeps its members when others are appended. -/
theorem has (h : d.Appends d') {handle : Handle} (hhas : d.Has handle) : d'.Has handle := by
  cases handle with
  | type id => exact h.id_eq.trans hhas
  | method m => exact ⟨h.id_eq.trans hhas.1, Nat.lt_of_lt_of_le hhas.2 h.methods.length_le⟩
  | field f => exact ⟨h.id_eq.trans hhas.1, Nat.lt_of_lt_of_le hhas.2 h.fields.length_le⟩
  | property p =>
      rw [Has, h.id_eq, h.properties]
      exact hhas

end Appends

/-- A property is added beside what there is. -/
theorem Has.pushProperty {handle : Handle} (h : d.Has handle) (p : PropertyDecl) :
  (d.pushProperty p).Has handle
  := by
  cases handle with
  | type id => exact h
  | method m => exact h
  | field f => exact h
  | property r =>
      refine ⟨h.1, ?_⟩
      rw [TypeDecl.pushProperty]
      rw [List.length_append]
      exact Nat.lt_add_right _ h.2

/-- A field is added at the end. -/
theorem appends_pushField (d : TypeDecl) (f : FieldDecl) : d.Appends (d.pushField f) :=
  ⟨List.prefix_append _ _, List.prefix_rfl, List.prefix_append _ _, rfl⟩

/-- So is a method. -/
theorem appends_pushMethod (d : TypeDecl) (m : MethodDecl) : d.Appends (d.pushMethod m) :=
  ⟨List.prefix_rfl, List.prefix_append _ _, List.prefix_append _ _, rfl⟩

/-- The entries that come with a method. -/
def methodEntries (m : MethodDecl) (index : Nat) : List Member :=
  (if m.kind.isConstructor then .constructor index else .method index)
    :: m.genericParams.mapIdx fun position name => .genericParam index position name

/-- The entries of a method are those of its index. -/
theorem isOfMethod_methodEntries {m : MethodDecl} {index : Nat} {entry : Member}
    (hentry : entry ∈ methodEntries m index) (i : Nat) :
  entry.isOfMethod i = (index == i)
  := by
  obtain hfirst | hgeneric := List.mem_cons.mp hentry
  · rw [hfirst]
    split <;> rfl
  · obtain ⟨position, hposition, hname⟩ := List.mem_mapIdx.mp hgeneric
    rw [← hname]
    rfl

/-- A field has no entry of a method. -/
theorem Indexed.pushField (h : d.Indexed) (f : FieldDecl) : (d.pushField f).Indexed := by
  intro entry hentry index hindex
  obtain hold | hnew := List.mem_append.mp hentry
  · apply h entry hold index hindex
  · rw [List.mem_singleton.mp hnew] at hindex
    split at hindex <;> cases hindex

/-- A method that is added has the next index. -/
theorem Indexed.pushMethod (h : d.Indexed) (m : MethodDecl) : (d.pushMethod m).Indexed := by
  intro entry hentry index hindex
  have hlength : (d.pushMethod m).methods.length = d.methods.length + 1 := by
    simp [TypeDecl.pushMethod]
  rw [hlength]
  obtain hold | hnew := List.mem_append.mp hentry
  · apply Nat.lt_succ_of_lt (h entry hold index hindex)
  · rw [isOfMethod_methodEntries hnew index, beq_iff_eq] at hindex
    rw [← hindex]
    apply Nat.lt_succ_self

/-- Taking back the method that has just been added. -/
theorem Indexed.dropMethod_pushMethod (h : d.Indexed) (m : MethodDecl) :
  (d.pushMethod m).dropMethod d.methods.length = d
  := by
  have hlength : (d.pushMethod m).methods.length = d.methods.length + 1 := by
    simp [TypeDecl.pushMethod]
  have hmethods : (d.pushMethod m).methods.dropLast = d.methods := by
    simp [TypeDecl.pushMethod]
  have hmembers : (d.pushMethod m).members.filter (!·.isOfMethod d.methods.length)
      = d.members := by
    change (d.members ++ methodEntries m d.methods.length).filter _ = _
    rw [List.filter_append, List.filter_eq_self.mpr, List.filter_eq_nil_iff.mpr, List.append_nil]
    · intro entry hentry
      rw [isOfMethod_methodEntries hentry]
      simp
    · intro entry hentry
      cases hof : entry.isOfMethod d.methods.length with
      | false => rfl
      | true => cases Nat.lt_irrefl _ (h entry hentry _ hof)
  rw [dropMethod]
  rw [if_pos hlength, hmethods, hmembers]
  rfl

/-- The method that has been added last gets its body. -/
theorem setBody_pushMethod (d : TypeDecl) (m : MethodDecl) (body : MethodBody) :
  (d.pushMethod m).setBody d.methods.length body = d.pushMethod { m with body := some body }
  := by
  rw [setBody]
  simp only [TypeDecl.pushMethod]
  congr 1
  apply List.ext_getElem?
  intro i
  rw [List.getElem?_modify]
  by_cases hi : i < d.methods.length
  · rw [List.getElem?_append_left hi, List.getElem?_append_left hi]
    have hne : d.methods.length ≠ i := by omega
    simp [hne]
  · have hle : d.methods.length ≤ i := by omega
    rw [List.getElem?_append_right hle, List.getElem?_append_right hle]
    cases hpos : i - d.methods.length with
    | zero =>
        have heq : d.methods.length = i := by omega
        simp [heq]
    | succ j => simp

end TypeDecl

/-! ## Workspaces in which one type is declared anew -/

namespace Workspace

variable {w : Workspace} {d d' : TypeDecl}

/-- A workspace in which a type has another declaration. -/
def redefining (w : Workspace) (d : TypeDecl) : Workspace :=
  w.updated d.id fun _ => d

/-- The types of a unit have numbers of their own and list their methods properly. -/
structure Orderly (w : Workspace) : Prop extends w.Fresh where
  indexed : ∀ d ∈ w.assembly.types, d.Indexed

/-- A type that can be added to. -/
structure Editable (w : Workspace) (d : TypeDecl) : Prop extends w.Orderly where
  decl : w.assembly.decl? d.id = some d
  building : d.state = .building

/-- A type that is being built can be edited. -/
theorem Orderly.editable {id : TypeId} (h : w.Orderly) (hd : w.assembly.building id = .ok d) :
  w.Editable d ∧ d.id = id
  := by
  obtain ⟨hdecl, hbuilding⟩ := Assembly.building_ok hd
  have hid := Assembly.decl?_id hdecl
  rw [← hid] at hdecl
  exact ⟨{ h with decl := hdecl, building := hbuilding }, hid⟩

/-- What can be edited is in the unit. -/
theorem Editable.mem (h : w.Editable d) : d ∈ w.assembly.types :=
  List.mem_of_find?_eq_some h.decl

/-- The entries of its methods have their indices. -/
theorem Editable.self_indexed (h : w.Editable d) : d.Indexed :=
  h.indexed d h.mem

/-- It is found to be in building. -/
theorem Editable.building_eq (h : w.Editable d) : w.assembly.building d.id = .ok d := by
  rw [Assembly.building, Assembly.decl]
  rw [h.decl]
  simp [Bind.bind, Except.bind, TypeDecl.isRealized, h.building]

/-- An update changes the one declaration that there is. -/
theorem Editable.updated_eq (h : w.Editable d) {f : TypeDecl → TypeDecl} (hf : (f d).id = d.id) :
  w.updated d.id f = w.redefining (f d)
  := by
  rw [redefining, updated, updated, hf]
  congr 1
  rw [Assembly.update, Assembly.update]
  congr 1
  apply List.map_congr_left
  intro e he
  split
  · next hid =>
    have := h.decl_unique he
    rw [beq_iff_eq.mp hid, h.decl] at this
    rw [Option.some.inj this]
  · rfl

/-- A type that is replaced by itself stays. -/
theorem Editable.redefining_self (h : w.Editable d) : w.redefining d = w := by
  rw [redefining, updated, Assembly.update_eq_self]
  intro e he hid
  have := h.decl_unique he
  rw [hid, h.decl] at this
  exact Option.some.inj this

/-- The last of several replacements counts. -/
theorem redefining_redefining (hid : d'.id = d.id) :
  (w.redefining d).redefining d' = w.redefining d'
  := by
  simp only [redefining, updated, Assembly.update, List.map_map]
  congr 2
  apply List.map_congr_left
  intro e _
  simp only [Function.comp_apply, hid]
  by_cases he : e.id = d.id
  · simp [he]
  · simp [beq_eq_false_iff_ne.mpr he]

/-- The types of the unit are the replacement and those from before. -/
theorem mem_redefining {e : TypeDecl} (he : e ∈ (w.redefining d).assembly.types) :
  e = d ∨ e ∈ w.assembly.types
  := by
  obtain ⟨e₀, he₀, rfl⟩ := List.mem_map.mp he
  split
  · left
    rfl
  · right
    exact he₀

/-- A replacement keeps all numbers. -/
theorem ids_redefining (w : Workspace) (d : TypeDecl) :
  (w.redefining d).assembly.ids = w.assembly.ids
  := by
  rw [Assembly.ids, Assembly.ids]
  simp only [redefining, updated, Assembly.update, List.map_map]
  apply List.map_congr_left
  intro e _
  rw [Function.comp_apply]
  split
  · next hid => exact (beq_iff_eq.mp hid).symm
  · rfl

/-- The replacement is found under its number. -/
theorem decl?_redefining (w : Workspace) (d : TypeDecl) (x : TypeId) :
  (w.redefining d).assembly.decl? x = (w.assembly.decl? x).map fun e => if x = d.id then d else e
  := by
  have hid : ∀ e : TypeDecl, (if e.id == d.id then d else e).id = e.id := by
    intro e
    split
    · next h => exact (beq_iff_eq.mp h).symm
    · rfl
  simp only [redefining, updated, Assembly.decl?, Assembly.update, List.find?_map,
    Function.comp_def, hid]
  cases he : w.assembly.types.find? (·.id == x) with
  | none => rfl
  | some e =>
      have hx : e.id = x := Assembly.decl?_id he
      simp only [Option.map_some, hx, beq_iff_eq]

/-- A type that has been added to can be added to. -/
theorem Editable.redefining
    (h : w.Editable d) (hid : d'.id = d.id) (hstate : d'.state = d.state) (hindexed : d'.Indexed) :
  (w.redefining d').Editable d'
  := by
  refine
    { nodup := ?_, unused := ?_, unrealized := ?_, indexed := ?_, decl := ?_, building := ?_ }
  · change (w.redefining d').assembly.ids.Nodup
    rw [ids_redefining]
    apply h.nodup
  · intro e he
    obtain rfl | he := mem_redefining he
    · rw [hid]
      apply h.unused d h.mem
    · apply h.unused e he
  · intro e he hbuilding t ht
    obtain rfl | he := mem_redefining he
    · rw [hid]
      apply h.unrealized d h.mem h.building t ht
    · apply h.unrealized e he hbuilding t ht
  · intro e he
    obtain rfl | he := mem_redefining he
    · apply hindexed
    · apply h.indexed e he
  · rw [decl?_redefining, hid, h.decl, Option.map_some, if_pos rfl]
  · rw [hstate, h.building]

end Workspace

/-! ## Operations that add a part -/

namespace Build

open Workspace

/-- An operation on an open type appends members and hands back handles of members that the type
then has, or it fails and leaves the workspace as it was. -/
def Adding (d₀ : TypeId) (handles : α → List Handle) (b : Build α) : Prop :=
  ∀ {w : Workspace} {d : TypeDecl}, w.Editable d → d.id = d₀ →
    (∃ e, b.exec w = (.error e, w))
    ∨ ∃ a d', b.exec w = (.ok a, w.redefining d') ∧ d.Appends d' ∧ d'.Indexed
      ∧ ∀ h ∈ handles a, d'.Has h

variable {w : Workspace} {d d' : TypeDecl} {handles : α → List Handle} {id : TypeId}

/-- What can be edited is found and nothing changes. -/
theorem exec_building (h : w.Editable d) : (building d.id).exec w = (.ok d, w) := by
  rw [building, exec_ask, h.building_eq]

/-- An operation that fails before it changes anything. -/
def Refusing (b : Build α) : Prop :=
  ∀ w, ∃ e, b.exec w = (.error e, w)

theorem refusing_invalid (id : TypeId) (reason : String) : Refusing (invalid id reason : Build α) :=
  fun _ => ⟨_, rfl⟩

/-- Nothing follows a refusal. -/
theorem refusing_throw_bind (e : BuildError) (f : α → Build β) :
  Refusing ((throw e : Build α) >>= f)
  :=
  fun _ => ⟨e, rfl⟩

/-- A refusal adds nothing. -/
theorem Refusing.adding {b : Build α} (h : Refusing b) : Adding id handles b :=
  fun {w} _ _ _ => .inl (h w)

/-- An answer without handles adds nothing. -/
theorem adding_pure (a : α) (hnone : handles a = []) : Adding id handles (pure a : Build α) := by
  intro w d h _
  right
  refine ⟨a, d, ?_, .refl d, h.self_indexed, by simp [hnone]⟩
  rw [h.redefining_self]
  rfl

/-- Both ways of a decision add what the answer names. -/
theorem adding_ite {c : Prop} [Decidable c] {b b' : Build α} (hb : Adding id handles b)
    (hb' : Adding id handles b') :
  Adding id handles (if c then b else b')
  := by
  split
  · exact hb
  · exact hb'

/-- What an operation asks first changes nothing. -/
theorem adding_ask
    {f : Workspace → Except BuildError α} {g : α → Build β} {handles : β → List Handle}
    (hg : ∀ a, Adding id handles (g a)) :
  Adding id handles (ask f >>= g)
  := by
  intro w d h hid
  rw [exec_bind, exec_ask]
  cases f w with
  | error e =>
      left
      exact ⟨e, rfl⟩
  | ok a => apply hg a h hid

/-! ## Fields -/

/-- A field is added at the end, or nothing changes. -/
theorem exec_pushField (h : w.Editable d) (f : FieldDecl) :
  (∃ e, (pushField d.id f).exec w = (.error e, w))
  ∨ (pushField d.id f).exec w = (.ok (d.fieldRef d.fields.length), w.redefining (d.pushField f))
  := by
  rw [pushField]
  rw [exec_bind, exec_building h]
  dsimp only
  rw [exec_ite]
  split
  · left
    exact ⟨_, rfl⟩
  · right
    rw [exec_bind, exec_updateType]
    change (_, w.updated d.id _) = _
    rw [h.updated_eq (f := (·.pushField f)) rfl]

/-- The new field has the handle that is answered. -/
theorem has_pushField (d : TypeDecl) (f : FieldDecl) :
  (d.pushField f).Has (.field (d.fieldRef d.fields.length))
  := by
  refine ⟨rfl, ?_⟩
  simp [TypeDecl.fieldRef, TypeDecl.pushField]

/-- A field is appended, unless the type is an interface or something is wrong. -/
theorem exec_defineField (h : w.Editable d) (name : String) (t : TypeRef) (spec : FieldSpec) :
  (∃ e, (defineField d.id name t spec).exec w = (.error e, w))
  ∨ (defineField d.id name t spec).exec w = (.ok none, w)
  ∨ ∃ f, (defineField d.id name t spec).exec w
      = (.ok (some (d.fieldRef d.fields.length)), w.redefining (d.pushField f))
  := by
  rw [defineField]
  rw [exec_ite]
  split
  · left
    exact ⟨_, rfl⟩
  · rw [exec_bind, exec_building h]
    dsimp only
    split
    · right; left
      rfl
    · left
      exact ⟨_, rfl⟩
    · rw [exec_ite]
      split
      · left
        exact ⟨_, rfl⟩
      · rw [exec_bind]
        obtain ⟨e, hexec⟩ | hexec := exec_pushField h _
        · left
          refine ⟨e, ?_⟩
          rw [hexec]
        · right; right
          rw [hexec]
          exact ⟨_, rfl⟩

/-- Defining a field adds the field whose handle is answered. -/
theorem adding_defineField (id : TypeId) (name : String) (t : TypeRef) (spec : FieldSpec) :
  Adding id (fun r => r.toList.map .field) (defineField id name t spec)
  := by
  rintro w d h rfl
  obtain ⟨e, hexec⟩ | hexec | ⟨f, hexec⟩ := exec_defineField h name t spec
  · left
    exact ⟨e, hexec⟩
  · right
    refine ⟨none, d, ?_, .refl d, h.self_indexed, by simp⟩
    rw [hexec, h.redefining_self]
  · right
    refine ⟨_, _, hexec, d.appends_pushField f, h.self_indexed.pushField f, ?_⟩
    intro handle hhandle
    rw [List.mem_singleton.mp hhandle]
    apply has_pushField

/-! ## Methods -/

/-- A method is entered without its body. -/
theorem exec_reserve (h : w.Editable d) (entry : MethodDecl) :
  (∃ e, (reserveMethod d.id entry).exec w = (.error e, w))
  ∨ (reserveMethod d.id entry).exec w
      = (.ok (d.methodRef d.methods.length), w.redefining (d.pushMethod entry))
  := by
  obtain hrefused | ⟨d', hd', hexec⟩ := exec_reserveMethod d.id entry w
  · left
    exact hrefused
  · right
    rw [h.building_eq] at hd'
    cases hd'
    rw [hexec, h.updated_eq (f := (·.pushMethod entry)) rfl]

/-- A reserved method gets the body that has been emitted. -/
theorem exec_completeMethod_emitted
    (h : w.Editable d) {entry : MethodDecl} {target : Option Overridden} {body : Body ρ}
    {result : MethodBody} {remarks : List ρ}
    (hemit : emitBody (w.redefining (d.pushMethod entry)) (d.methodRef d.methods.length) target body
      = .ok (result, remarks)) :
  (completeMethod (d.methodRef d.methods.length) target body).exec
      (w.redefining (d.pushMethod entry))
    = (.ok (d.methodRef d.methods.length, remarks),
        w.redefining (d.pushMethod { entry with body := some result }))
  := by
  have hreserved : (w.redefining (d.pushMethod entry)).Editable (d.pushMethod entry) :=
    h.redefining rfl rfl (h.self_indexed.pushMethod entry)
  have hagain : (w.redefining (d.pushMethod entry)).redefining
      (d.pushMethod { entry with body := some result })
      = w.redefining (d.pushMethod { entry with body := some result }) :=
    redefining_redefining rfl
  have hbody := hreserved.updated_eq (f := (·.setBody d.methods.length result)) rfl
  rw [TypeDecl.setBody_pushMethod, hagain] at hbody
  obtain ⟨method, hmethod⟩ := emitBody_ok hemit
  rw [completeMethod]
  rw [exec_bind, exec_get]
  dsimp only
  rw [hemit]
  dsimp only
  rw [exec_bind, exec_putBody hmethod]
  exact congrArg _ hbody

/-- A reserved method gets its body, or the reservation is taken back. -/
theorem exec_completeMethod
    (h : w.Editable d) (entry : MethodDecl) (target : Option Overridden) (body : Body ρ) :
  (∃ e, (completeMethod (d.methodRef d.methods.length) target body).exec
      (w.redefining (d.pushMethod entry)) = (.error e, w))
  ∨ ∃ result remarks, (completeMethod (d.methodRef d.methods.length) target body).exec
      (w.redefining (d.pushMethod entry)) = (.ok (d.methodRef d.methods.length, remarks),
        w.redefining (d.pushMethod { entry with body := some result }))
  := by
  cases hemit : emitBody (w.redefining (d.pushMethod entry)) (d.methodRef d.methods.length) target
      body with
  | ok emitted =>
      right
      exact ⟨_, _, exec_completeMethod_emitted h hemit⟩
  | error e =>
      left
      refine ⟨e, ?_⟩
      have hreserved : (w.redefining (d.pushMethod entry)).Editable (d.pushMethod entry) :=
        h.redefining rfl rfl (h.self_indexed.pushMethod entry)
      have hdrop := h.self_indexed.dropMethod_pushMethod entry
      have hsame := hreserved.updated_eq (f := (·.dropMethod d.methods.length)) (by rw [hdrop]; rfl)
      have hagain : (w.redefining (d.pushMethod entry)).redefining d = w.redefining d :=
        redefining_redefining rfl
      rw [hdrop, hagain, h.redefining_self] at hsame
      rw [completeMethod]
      rw [exec_bind, exec_get]
      dsimp only
      rw [hemit]
      dsimp only
      rw [exec_bind, exec_updateType]
      exact congrArg _ hsame

/-- The new method has the handle that is answered. -/
theorem has_pushMethod (d : TypeDecl) (m : MethodDecl) :
  (d.pushMethod m).Has (.method (d.methodRef d.methods.length))
  := by
  refine ⟨rfl, ?_⟩
  simp [TypeDecl.methodRef, TypeDecl.pushMethod]

/-- A method that is entered, and goes on to be completed. -/
theorem adding_reserve
    {entry : MethodDecl} {f : MethodRef → Build (MethodRef × List ρ)}
    (hf : ∀ {w : Workspace} {d : TypeDecl}, w.Editable d → d.id = id →
      (∃ e, (f (d.methodRef d.methods.length)).exec (w.redefining (d.pushMethod entry))
        = (.error e, w))
      ∨ ∃ m remarks, (f (d.methodRef d.methods.length)).exec (w.redefining (d.pushMethod entry))
        = (.ok (d.methodRef d.methods.length, remarks), w.redefining (d.pushMethod m))) :
  Adding id (fun r => [.method r.1]) (reserveMethod id entry >>= f)
  := by
  rintro w d h rfl
  rw [exec_bind]
  obtain ⟨e, hexec⟩ | hexec := exec_reserve h entry
  · left
    refine ⟨e, ?_⟩
    rw [hexec]
  · rw [hexec]
    dsimp only
    obtain ⟨e, hexec⟩ | ⟨m, remarks, hexec⟩ := hf h rfl
    · left
      exact ⟨e, hexec⟩
    · right
      refine ⟨_, _, hexec, d.appends_pushMethod m, h.self_indexed.pushMethod m, ?_⟩
      intro handle hhandle
      rw [List.mem_singleton.mp hhandle]
      apply has_pushMethod

/-- A method that is reserved and completed is there, and one that fails is taken back. -/
theorem adding_completeMethod
    (id : TypeId) (entry : MethodDecl) (target : Option Overridden) (body : Body ρ) :
  Adding id (fun r => [.method r.1])
    (reserveMethod id entry >>= fun m => completeMethod m target body)
  := by
  apply adding_reserve
  intro w d h _
  obtain hrefused | ⟨result, remarks, hexec⟩ := exec_completeMethod h entry target body
  · left
    exact hrefused
  · right
    exact ⟨_, remarks, hexec⟩

/-- Defining a method adds the method whose handle is answered. -/
theorem adding_defineMethod
    (id : TypeId) (name : String) (spec : MethodSpec) (body : Body ρ) (kind : MethodKind) :
  Adding id (fun r => [.method r.1]) (defineMethod id name spec body kind)
  := by
  apply adding_ask
  rintro ⟨entry, target⟩
  dsimp only
  cases entry.isAbstract with
  | true =>
      apply adding_reserve
      intro w d h _
      right
      exact ⟨entry, [], rfl⟩
  | false => apply adding_completeMethod

/-- So does defining a constructor. -/
theorem adding_defineConstructor (id : TypeId) (spec : ConstructorSpec) (body : Body ρ) :
  Adding id (fun r => [.method r.1]) (defineConstructor id spec body)
  := by
  apply adding_ask
  intro d
  apply adding_ite (refusing_throw_bind _ _).adding
  apply adding_ite (refusing_throw_bind _ _).adding
  apply adding_completeMethod

/-- So does defining an accessor, if there is a body for it. -/
theorem adding_defineAccessor
    (id : TypeId) (name : String) (spec : MethodSpec) (kind : MethodKind)
    (body : Option (Body ρ)) :
  Adding id (fun r => r.1.toList.map .method) (defineAccessor id name spec kind body)
  := by
  cases body with
  | none => exact adding_pure (none, []) rfl
  | some body =>
      intro w d h hid
      rw [defineAccessor]
      rw [exec_bind]
      obtain ⟨e, hexec⟩ | ⟨⟨m, remarks⟩, d', hexec, happends, hindexed, hhas⟩ :=
        adding_defineMethod id name spec body kind h hid
      · left
        refine ⟨e, ?_⟩
        rw [hexec]
      · right
        refine ⟨(some m, remarks), d', ?_, happends, hindexed, hhas⟩
        rw [hexec]
        rfl

/-! ## Properties -/

/-- The bodies of an auto property add its field. -/
theorem adding_accessorBodies
    (id : TypeId) (name : String) (t : TypeRef) (spec : PropertySpec ρ) :
  Adding id (fun r => r.field.toList.map .field) (accessorBodies id name t spec)
  := by
  apply adding_ask
  intro d
  dsimp only
  cases spec.accessors with
  | auto writable =>
      apply adding_ite (adding_pure _ rfl)
      rintro w d h rfl
      rw [exec_bind]
      obtain ⟨e, hexec⟩ | hexec | ⟨f, hexec⟩ := exec_defineField h (backingFieldName name) t _
      · left
        refine ⟨e, ?_⟩
        rw [hexec]
      · left
        rw [hexec]
        exact refusing_invalid _ _ w
      · right
        rw [hexec]
        refine ⟨_, _, rfl, d.appends_pushField f, h.self_indexed.pushField f, ?_⟩
        intro handle hhandle
        rw [List.mem_singleton.mp hhandle]
        apply has_pushField
  | custom getter setter =>
      cases getter with
      | some getter => exact adding_pure (⟨some getter, setter, none⟩ : AccessorBodies ρ) rfl
      | none =>
          cases setter with
          | some setter => exact adding_pure (⟨none, some setter, none⟩ : AccessorBodies ρ) rfl
          | none => exact (refusing_invalid id _).adding

/-- An operation on an open type, and what comes behind it. -/
theorem exec_bind_adding
    {b : Build α} {f : α → Build β} (hb : Adding id handles b) (h : w.Editable d) (hid : d.id = id) :
  (∃ e, (b >>= f).exec w = (.error e, w))
  ∨ ∃ a d', d.Appends d' ∧ (w.redefining d').Editable d' ∧ (∀ h ∈ handles a, d'.Has h)
    ∧ (b >>= f).exec w = (f a).exec (w.redefining d')
  := by
  rw [exec_bind]
  obtain ⟨e, hexec⟩ | ⟨a, d', hexec, happends, hindexed, hhas⟩ := hb h hid
  · left
    refine ⟨e, ?_⟩
    rw [hexec]
  · right
    refine ⟨a, d', happends, h.redefining happends.id_eq happends.state hindexed, hhas, ?_⟩
    rw [hexec]

/-- The new property has the handle that is answered. -/
theorem has_pushProperty
    (d : TypeDecl) (p : PropertyDecl) (getter setter : Option MethodRef) (field : Option FieldRef) :
  (d.pushProperty p).Has (.property ⟨d.id, d.properties.length, getter, setter, field⟩)
  := by
  refine ⟨rfl, ?_⟩
  simp [TypeDecl.pushProperty]

/-- All parts of a property are appended, and then the property; when a part is refused, those
before it stay. -/
theorem exec_addProperty
    (h : w.Editable d) (name : String) (t : TypeRef) (spec : PropertySpec ρ) :
  ∃ d', d.Appends d' ∧ d'.Indexed
    ∧ ((∃ e, (addProperty d.id name t spec).exec w = (.error e, w.redefining d'))
      ∨ ∃ r remarks p, (addProperty d.id name t spec).exec w
          = (.ok (r, remarks), w.redefining (d'.pushProperty p))
        ∧ ∀ h ∈ r.handles, (d'.pushProperty p).Has h)
  := by
  have hagain : ∀ {d' d'' : TypeDecl}, d'.Appends d'' →
      (w.redefining d').redefining d'' = w.redefining d'' :=
    fun happends => redefining_redefining happends.id_eq
  rw [addProperty]
  obtain ⟨e, hexec⟩ | ⟨bodies, d₁, h₁, hw₁, hfield, hexec⟩ :=
    exec_bind_adding (adding_accessorBodies d.id name t spec) h rfl
  · refine ⟨d, .refl d, h.self_indexed, .inl ⟨e, ?_⟩⟩
    rw [hexec, h.redefining_self]
  rw [hexec]
  obtain ⟨e, hexec⟩ | ⟨⟨getter, first⟩, d₂, h₂, hw₂, hgetter, hexec⟩ :=
    exec_bind_adding (adding_defineAccessor d.id _ _ _ bodies.getter) hw₁ h₁.id_eq
  · exact ⟨d₁, h₁, hw₁.self_indexed, .inl ⟨e, hexec⟩⟩
  rw [hexec]
  dsimp only
  rw [hagain h₂] at hw₂ ⊢
  obtain ⟨e, hexec⟩ | ⟨⟨setter, second⟩, d₃, h₃, hw₃, hsetter, hexec⟩ :=
    exec_bind_adding (adding_defineAccessor d.id _ _ _ bodies.setter) hw₂ (h₁.trans h₂).id_eq
  · exact ⟨d₂, h₁.trans h₂, hw₂.self_indexed, .inl ⟨e, hexec⟩⟩
  rw [hexec]
  dsimp only
  rw [hagain h₃] at hw₃ ⊢
  have hall := (h₁.trans h₂).trans h₃
  refine ⟨d₃, hall, hw₃.self_indexed, .inr ?_⟩
  rw [← hall.id_eq]
  rw [exec_bind, exec_building hw₃]
  dsimp only
  rw [exec_bind, exec_updateType]
  refine ⟨_, _, _, congrArg _ ((hw₃.updated_eq (f := (·.pushProperty _)) rfl).trans
    (redefining_redefining rfl)), ?_⟩
  intro handle hhandle
  obtain rfl | hpart := List.mem_cons.mp hhandle
  · apply has_pushProperty
  · apply TypeDecl.Has.pushProperty
    simp only [List.mem_append] at hpart
    obtain (hpart | hpart) | hpart := hpart
    · apply h₃.has (hgetter handle hpart)
    · apply hsetter handle hpart
    · apply h₃.has (h₂.has (hfield handle hpart))

/-- When a property is refused, all parts of it are taken back. -/
theorem exec_defineProperty
    (h : w.Editable d) (name : String) (t : TypeRef) (spec : PropertySpec ρ) :
  (∃ e, (defineProperty d.id name t spec).exec w = (.error e, w))
  ∨ ∃ r remarks p d', (defineProperty d.id name t spec).exec w
      = (.ok (r, remarks), w.redefining (d'.pushProperty p))
    ∧ d.Appends d' ∧ d'.Indexed ∧ ∀ h ∈ r.handles, (d'.pushProperty p).Has h
  := by
  rw [defineProperty]
  dsimp only
  rw [exec_ite]
  split
  · left
    exact ⟨_, rfl⟩
  · rw [exec_bind, exec_building h]
    dsimp only
    rw [exec_ite]
    split
    · left
      exact refusing_invalid _ _ w
    · rw [exec_ite]
      split
      · left
        exact refusing_invalid _ _ w
      · rw [exec_ite]
        split
        · left
          exact ⟨_, rfl⟩
        · rw [exec_tryCatch]
          obtain ⟨d', happends, hindexed, ⟨e, hexec⟩ | ⟨r, remarks, p, hexec, hhas⟩⟩ :=
            exec_addProperty h name t spec
          · left
            refine ⟨e, ?_⟩
            have hw' := h.redefining happends.id_eq happends.state hindexed
            have hcut := hw'.updated_eq
              (f := (·.truncate d.fields.length d.methods.length d.members.length))
              (by rw [happends.truncate, happends.id_eq])
            rw [happends.truncate, redefining_redefining happends.id_eq.symm, h.redefining_self,
              happends.id_eq] at hcut
            rw [hexec]
            dsimp only
            rw [exec_bind, exec_updateType]
            exact congrArg _ hcut
          · right
            refine ⟨r, remarks, p, d', ?_, happends, hindexed, hhas⟩
            rw [hexec]

end Build

end ManagedCode
