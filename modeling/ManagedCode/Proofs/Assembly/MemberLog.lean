import ManagedCode.Proofs.Assembly.Bodies

/-!
# The list of all members

A type keeps its members in lists of their own kind, and one list tells the order in which all of
them were defined.  The lists always fit together: an entry for each member, in the order of its
kind, and the generic parameters of a method right behind the method (`TypeDecl.Logged`).  What an
operation appends keeps this, and an operation that is refused leaves nothing behind, so that it
holds of all types in the whole lifetime of a session (`Project.logged_run`).
-/

namespace ManagedCode

variable {ρ α β : Type}

/-! ## Entries -/

/-- The entry of a field. -/
def FieldDecl.entry (f : FieldDecl) (index : Nat) : Member :=
  if f.attributes.isLiteral then .enumLiteral index else .field index

namespace MethodDecl

/-- The entry of a method. -/
def entry (m : MethodDecl) (index : Nat) : Member :=
  if m.kind.isConstructor then .constructor index else .method index

/-- The entries of the generic parameters of a method. -/
def genericEntries (m : MethodDecl) (index : Nat) : List Member :=
  m.genericParams.mapIdx fun position name => .genericParam index position name

/-- What a method may not have in common with another method of its type. -/
def likeness (m : MethodDecl) : Bool × String × List TypeRef :=
  (m.kind.isConstructor, m.name, m.paramTypes)

end MethodDecl

namespace Member

/-- The entry is one of a field. -/
def isField : Member → Bool
  | field _ | enumLiteral _ => true
  | _ => false

/-- The entry is one of a property. -/
def isProperty : Member → Bool
  | property _ => true
  | _ => false

/-- The entry is one of a method. -/
def isMethod : Member → Bool
  | method _ | constructor _ => true
  | _ => false

/-- The entry is one of a generic parameter. -/
def isGeneric : Member → Bool
  | genericParam .. => true
  | _ => false

end Member

namespace TypeDecl

/-- A type has the accessors and the field of a property. -/
structure Supports (d : TypeDecl) (p : PropertyDecl) : Prop where
  getter : ∀ i, p.getter = some i → i < d.methods.length
  setter : ∀ i, p.setter = some i → i < d.methods.length
  backingField : ∀ i, p.backingField = some i → i < d.fields.length

/-- The lists of a type fit together.  Each field, each property and each method has one entry among
all members, and the entries of a kind stand in the order of the members.  The entry of a method
has those of its generic parameters behind it, and there are no others.  Fields and properties are
known by their names, and methods by their names and parameter types.  The parts of a property are
members, and the methods without bodies are the abstract ones. -/
structure Logged (d : TypeDecl) : Prop where
  fields : d.members.filter (·.isField) = d.fields.mapIdx fun i f => f.entry i
  properties : d.members.filter (·.isProperty) = d.properties.mapIdx fun i _ => .property i
  methods : d.members.filter (·.isMethod) = d.methods.mapIdx fun i m => m.entry i
  generics : d.members.filter (·.isGeneric) = (d.methods.mapIdx fun i m => m.genericEntries i).flatten
  together : ∀ (i : Nat) (m : MethodDecl), d.methods[i]? = some m →
    methodEntries m i <:+: d.members
  fieldNames : (d.fields.map (·.name)).Nodup
  propertyNames : (d.properties.map (·.name)).Nodup
  likenesses : (d.methods.map (·.likeness)).Nodup
  supported : ∀ p ∈ d.properties, d.Supports p
  bodies : ∀ m ∈ d.methods, m.body = none ↔ m.isAbstract = true

end TypeDecl

/-- The entries of one kind among those that come with a method. -/
theorem MethodDecl.filter_entries
    (m : MethodDecl) (index : Nat) {kind : Member → Bool} {own generic : Bool}
    (hmethod : kind (.method index) = own) (hconstructor : kind (.constructor index) = own)
    (hgeneric : ∀ position name, kind (.genericParam index position name) = generic) :
  (TypeDecl.methodEntries m index).filter kind
    = (if own then [m.entry index] else []) ++ if generic then m.genericEntries index else []
  := by
  have hentry : kind (m.entry index) = own := by
    rw [entry]
    split
    · exact hconstructor
    · exact hmethod
  have hgenerics : ∀ e ∈ m.genericEntries index, kind e = generic := by
    intro e he
    obtain ⟨position, hposition, rfl⟩ := List.mem_mapIdx.mp he
    apply hgeneric
  have htail : (m.genericEntries index).filter kind
      = if generic then m.genericEntries index else [] := by
    cases generic with
    | true => exact List.filter_eq_self.mpr hgenerics
    | false =>
        apply List.filter_eq_nil_iff.mpr
        intro e he
        simp [hgenerics e he]
  change (m.entry index :: m.genericEntries index).filter kind = _
  rw [List.filter_cons, hentry, htail]
  cases own <;> rfl

/-- The entries of one kind when a field has been entered. -/
theorem FieldDecl.filter_entry
    (f : FieldDecl) (index : Nat) {kind : Member → Bool} {own : Bool}
    (hfield : kind (.field index) = own) (hliteral : kind (.enumLiteral index) = own) :
  [f.entry index].filter kind = if own then [f.entry index] else []
  := by
  have hentry : kind (f.entry index) = own := by
    rw [entry]
    split
    · exact hliteral
    · exact hfield
  rw [List.filter_singleton, hentry]
  cases own <;> rfl

/-- What is settled of methods tells everything that is made of nothing else. -/
theorem mapIdx_congr_heads
    {ms ms' : List MethodDecl} (h : ms'.map (·.head) = ms.map (·.head)) {g : Nat → MethodDecl → α}
    (hg : ∀ i m, g i m.head = g i m) :
  ms'.mapIdx g = ms.mapIdx g
  := by
  apply List.ext_getElem?
  intro i
  have hi := congrArg (·[i]?.map (g i)) h
  simpa only [List.getElem?_map, List.getElem?_mapIdx, Option.map_map, Function.comp_def, hg] using hi

namespace TypeDecl

variable {d d' : TypeDecl}

/-- What supports a property still does so when there is more of it. -/
theorem Supports.mono
    {p : PropertyDecl} (h : d.Supports p) (hmethods : d.methods.length ≤ d'.methods.length)
    (hfields : d.fields.length ≤ d'.fields.length) :
  d'.Supports p
  :=
  ⟨fun i hi => Nat.lt_of_lt_of_le (h.getter i hi) hmethods,
    fun i hi => Nat.lt_of_lt_of_le (h.setter i hi) hmethods,
    fun i hi => Nat.lt_of_lt_of_le (h.backingField i hi) hfields⟩

namespace Logged

/-- A type without members. -/
theorem of_nil
    (hfields : d.fields = []) (hmethods : d.methods = []) (hproperties : d.properties = [])
    (hmembers : d.members = []) :
  d.Logged
  := by
  constructor <;> simp [hfields, hmethods, hproperties, hmembers]

/-- Only what stands beside the members has changed. -/
theorem of_members
    (h : d.Logged) (hfields : d'.fields = d.fields) (hmethods : d'.methods = d.methods)
    (hproperties : d'.properties = d.properties) (hmembers : d'.members = d.members) :
  d'.Logged
  := by
  obtain ⟨handle, name, fullName, visibility, modifier, attributes, base, interfaces, fields, methods,
    properties, members, nested, enclosing, customAttributes, state, nextLiteral⟩ := d'
  cases hfields
  cases hmethods
  cases hproperties
  cases hmembers
  exact ⟨h.fields, h.properties, h.methods, h.generics, h.together, h.fieldNames, h.propertyNames,
    h.likenesses, fun p hp => (h.supported p hp).mono (Nat.le_refl _) (Nat.le_refl _), h.bodies⟩

/-- A field of a new name is logged. -/
theorem pushField
    (h : d.Logged) {f : FieldDecl} (hfree : d.fields.any (·.name == f.name) = false) :
  (d.pushField f).Logged
  := by
  have hentry : (d.pushField f).members = d.members ++ [f.entry d.fields.length] := rfl
  have hfields : (d.pushField f).fields = d.fields ++ [f] := rfl
  constructor
  case fields =>
    rw [hentry, hfields, List.filter_append, h.fields, f.filter_entry _ rfl rfl,
      List.mapIdx_concat]
    rfl
  case properties =>
    rw [hentry, List.filter_append, h.properties, f.filter_entry _ rfl rfl]
    apply List.append_nil
  case methods =>
    rw [hentry, List.filter_append, h.methods, f.filter_entry _ rfl rfl]
    apply List.append_nil
  case generics =>
    rw [hentry, List.filter_append, h.generics, f.filter_entry _ rfl rfl]
    apply List.append_nil
  case together =>
    intro i m hm
    rw [hentry]
    exact (h.together i m hm).trans (List.prefix_append _ _).isInfix
  case fieldNames =>
    have hnew : f.name ∉ d.fields.map (·.name) := by simpa using hfree
    rw [hfields, List.map_append]
    exact List.nodup_append_comm.mp (List.nodup_cons.mpr ⟨hnew, h.fieldNames⟩)
  case propertyNames => exact h.propertyNames
  case likenesses => exact h.likenesses
  case supported =>
    intro p hp
    refine (h.supported p hp).mono (Nat.le_refl _) ?_
    rw [hfields, List.length_append]
    apply Nat.le_add_right
  case bodies => exact h.bodies

/-- So is a property of a new name, with its parts. -/
theorem pushProperty
    (h : d.Logged) {p : PropertyDecl} (hfree : d.properties.any (·.name == p.name) = false)
    (hsupports : d.Supports p) :
  (d.pushProperty p).Logged
  := by
  have hentry : (d.pushProperty p).members = d.members ++ [.property d.properties.length] := rfl
  have hproperties : (d.pushProperty p).properties = d.properties ++ [p] := rfl
  constructor
  case fields =>
    rw [hentry, List.filter_append, h.fields]
    apply List.append_nil
  case properties =>
    rw [hentry, hproperties, List.filter_append, h.properties, List.mapIdx_concat]
    rfl
  case methods =>
    rw [hentry, List.filter_append, h.methods]
    apply List.append_nil
  case generics =>
    rw [hentry, List.filter_append, h.generics]
    apply List.append_nil
  case together =>
    intro i m hm
    rw [hentry]
    exact (h.together i m hm).trans (List.prefix_append _ _).isInfix
  case fieldNames => exact h.fieldNames
  case propertyNames =>
    have hnew : p.name ∉ d.properties.map (·.name) := by simpa using hfree
    rw [hproperties, List.map_append]
    exact List.nodup_append_comm.mp (List.nodup_cons.mpr ⟨hnew, h.propertyNames⟩)
  case likenesses => exact h.likenesses
  case supported =>
    intro q hq
    obtain hq | hq := List.mem_append.mp hq
    · exact (h.supported q hq).mono (Nat.le_refl _) (Nat.le_refl _)
    · rw [List.mem_singleton.mp hq]
      exact hsupports.mono (Nat.le_refl _) (Nat.le_refl _)
  case bodies => exact h.bodies

/-- So is a method unlike the others. -/
theorem pushMethod
    (h : d.Logged) {m : MethodDecl} (hfree : d.hasMethodLike m = false)
    (hbody : m.body = none ↔ m.isAbstract = true) :
  (d.pushMethod m).Logged
  := by
  let index := d.methods.length
  have hentries : (d.pushMethod m).members = d.members ++ methodEntries m index := rfl
  have hmethods : (d.pushMethod m).methods = d.methods ++ [m] := rfl
  constructor
  case fields =>
    rw [hentries, List.filter_append, h.fields, m.filter_entries _ rfl rfl fun _ _ => rfl]
    apply List.append_nil
  case properties =>
    rw [hentries, List.filter_append, h.properties, m.filter_entries _ rfl rfl fun _ _ => rfl]
    apply List.append_nil
  case methods =>
    rw [hentries, hmethods, List.filter_append, h.methods,
      m.filter_entries _ rfl rfl fun _ _ => rfl, List.mapIdx_concat]
    rfl
  case generics =>
    rw [hentries, hmethods, List.filter_append, h.generics,
      m.filter_entries _ rfl rfl fun _ _ => rfl, List.mapIdx_concat, List.flatten_append,
      List.flatten_singleton]
    rfl
  case together =>
    intro i n hn
    rw [hentries]
    rw [hmethods] at hn
    obtain hi | hi := Nat.lt_or_ge i d.methods.length
    · rw [List.getElem?_append_left hi] at hn
      exact (h.together i n hn).trans (List.prefix_append _ _).isInfix
    · rw [List.getElem?_append_right hi, List.getElem?_singleton] at hn
      split at hn
      · next hlast =>
        cases hn
        obtain rfl : i = index := Nat.le_antisymm (Nat.le_of_sub_eq_zero hlast) hi
        exact (List.suffix_append _ _).isInfix
      · cases hn
  case fieldNames => exact h.fieldNames
  case propertyNames => exact h.propertyNames
  case likenesses =>
    have hnew : m.likeness ∉ d.methods.map (·.likeness) := by
      intro hmem
      obtain ⟨n, hn, hlike⟩ := List.mem_map.mp hmem
      obtain ⟨hkind, hname, hparams⟩ : n.kind.isConstructor = m.kind.isConstructor
          ∧ n.name = m.name ∧ n.paramTypes = m.paramTypes := by
        simpa [MethodDecl.likeness] using hlike
      have hother := List.any_eq_false.mp hfree n hn
      simp [hkind, hname, hparams] at hother
    rw [hmethods, List.map_append]
    exact List.nodup_append_comm.mp (List.nodup_cons.mpr ⟨hnew, h.likenesses⟩)
  case supported =>
    intro p hp
    refine (h.supported p hp).mono ?_ (Nat.le_refl _)
    rw [hmethods, List.length_append]
    apply Nat.le_add_right
  case bodies =>
    intro n hn
    obtain hn | hn := List.mem_append.mp hn
    · exact h.bodies n hn
    · rw [List.mem_singleton.mp hn]
      exact hbody

/-- Something of one method has changed that is not settled by its declaration. -/
theorem modify
    (h : d.Logged) (index : Nat) {f : MethodDecl → MethodDecl} (hhead : ∀ m, (f m).head = m.head)
    (hbody : ∀ m, d.methods[index]? = some m → ((f m).body = none ↔ m.isAbstract = true)) :
  Logged { d with methods := d.methods.modify index f }
  := by
  have hheads : (d.methods.modify index f).map (·.head) = d.methods.map (·.head) := by
    simpa using (TypeDecl.Extends.modify d index f hhead).methods
  have hmapIdx : ∀ {γ : Type} (g : Nat → MethodDecl → γ), (∀ i m, g i m.head = g i m) →
      (d.methods.modify index f).mapIdx g = d.methods.mapIdx g :=
    fun g hg => mapIdx_congr_heads hheads hg
  constructor
  case fields => exact h.fields
  case properties => exact h.properties
  case methods => rw [hmapIdx _ fun _ _ => rfl, h.methods]
  case generics => rw [hmapIdx _ fun _ _ => rfl, h.generics]
  case together =>
    intro i m hm
    have hfirst := congrArg (·[i]?) hheads
    simp only [List.getElem?_map, hm, Option.map_some] at hfirst
    obtain ⟨m', hm', hsame⟩ := Option.map_eq_some_iff.mp hfirst.symm
    have hentries : methodEntries m' i = methodEntries m i :=
      (congrArg (methodEntries · i) hsame :)
    exact hentries ▸ h.together i m' hm'
  case fieldNames => exact h.fieldNames
  case propertyNames => exact h.propertyNames
  case likenesses =>
    have hlikenesses := congrArg (List.map (·.likeness)) hheads
    rw [List.map_map, List.map_map] at hlikenesses
    exact hlikenesses ▸ h.likenesses
  case supported =>
    intro p hp
    refine (h.supported p hp).mono ?_ (Nat.le_refl _)
    rw [List.length_modify]
  case bodies =>
    intro m hm
    obtain ⟨i, hi⟩ := List.getElem?_of_mem hm
    rw [List.getElem?_modify] at hi
    obtain ⟨n, hn, rfl⟩ := Option.map_eq_some_iff.mp hi
    split
    · next hindex =>
      subst hindex
      rw [hbody n hn]
      exact Eq.congr_left (congrArg MethodDecl.isAbstract (hhead n)).symm
    · exact h.bodies n (List.mem_of_getElem? hn)

/-- A log gives the methods their indices. -/
theorem indexed (h : d.Logged) : d.Indexed := by
  intro e he index hof
  have hmethod : e.isMethod = true → index < d.methods.length := by
    intro hkind
    have hmem : e ∈ d.methods.mapIdx fun i m => m.entry i :=
      h.methods ▸ List.mem_filter.mpr ⟨he, hkind⟩
    obtain ⟨i, hi, rfl⟩ := List.mem_mapIdx.mp hmem
    rw [MethodDecl.entry] at hof
    split at hof <;>
    · rw [← beq_iff_eq.mp hof]
      exact hi
  cases e with
  | method i => exact hmethod rfl
  | constructor i => exact hmethod rfl
  | genericParam i position name =>
      have hmem : Member.genericParam i position name
          ∈ (d.methods.mapIdx fun i m => m.genericEntries i).flatten :=
        h.generics ▸ List.mem_filter.mpr ⟨he, rfl⟩
      obtain ⟨entries, hentries, hentry⟩ := List.mem_flatten.mp hmem
      obtain ⟨j, hj, rfl⟩ := List.mem_mapIdx.mp hentries
      obtain ⟨k, hk, hsame⟩ := List.mem_mapIdx.mp hentry
      cases hsame
      rw [← beq_iff_eq.mp hof]
      exact hj
  | field i => cases hof
  | property i => cases hof
  | enumLiteral i => cases hof

end Logged

end TypeDecl

/-! ## Operations on an open type -/

/-- What a type has been declared anew as. -/
theorem Workspace.Editable.redefining_inj
    {w : Workspace} {d d₁ d₂ : TypeDecl} (h : w.Editable d) (h₁ : d₁.id = d.id) (h₂ : d₂.id = d.id)
    (heq : w.redefining d₁ = w.redefining d₂) :
  d₁ = d₂
  := by
  have hdecl := congrArg (·.assembly.decl? d.id) heq
  rw [decl?_redefining, decl?_redefining, h.decl, Option.map_some, Option.map_some,
    if_pos h₁.symm, if_pos h₂.symm] at hdecl
  exact Option.some.inj hdecl

namespace Build

open Workspace

variable {w w' : Workspace} {d d' : TypeDecl} {id : TypeId}

/-- An open type whose lists fit together has become another one. -/
structure Relogs (w : Workspace) (d : TypeDecl) (w' : Workspace) (d' : TypeDecl) : Prop where
  eq : w' = w.redefining d'
  editable : w'.Editable d'
  id_eq : d'.id = d.id
  logged : d'.Logged

/-- An operation that an open type accepts leaves its lists fitting together. -/
def Logging (id : TypeId) (b : Build α) : Prop :=
  ∀ ⦃w w' : Workspace⦄ ⦃d : TypeDecl⦄ ⦃a : α⦄, w.Editable d → d.id = id → d.Logged →
    b.exec w = (.ok a, w') → ∃ d', Relogs w d w' d'

namespace Relogs

/-- What is logged may stay as it is. -/
theorem refl (h : w.Editable d) (hlogged : d.Logged) : Relogs w d w d :=
  ⟨h.redefining_self.symm, h, rfl, hlogged⟩

/-- One change of the log after another. -/
theorem trans {w'' : Workspace} {d'' : TypeDecl} (h : Relogs w d w' d') (h' : Relogs w' d' w'' d'') :
  Relogs w d w'' d''
  := by
  refine ⟨?_, h'.editable, h'.id_eq.trans h.id_eq, h'.logged⟩
  rw [h'.eq, h.eq, redefining_redefining h'.id_eq]

/-- The type has been changed, and its lists still fit together. -/
theorem redefining (h : w.Editable d) (hid : d'.id = d.id) (hstate : d'.state = d.state)
    (hlogged : d'.Logged) :
  Relogs w d (w.redefining d') d'
  :=
  ⟨rfl, h.redefining hid hstate hlogged.indexed, hid, hlogged⟩

/-- A change that leaves the declaration logged. -/
theorem updated (h : w.Editable d) {f : TypeDecl → TypeDecl} (hid : (f d).id = d.id)
    (hstate : (f d).state = d.state) (hlogged : (f d).Logged) :
  Relogs w d (w.updated d.id f) (f d)
  := by
  rw [h.updated_eq hid]
  exact redefining h hid hstate hlogged

end Relogs

/-- An answer leaves the log as it is. -/
theorem logging_pure (a : α) : Logging id (pure a : Build α) := by
  intro w w' d _ h _ hlogged hok
  cases hok
  exact ⟨d, .refl h hlogged⟩

/-- So does a refusal. -/
theorem Refusing.logging {b : Build α} (h : Refusing b) : Logging id b := by
  intro w w' d a _ _ _ hok
  obtain ⟨e, hexec⟩ := h w
  rw [hexec] at hok
  cases hok

/-- Both ways of a decision keep the log. -/
theorem logging_ite {c : Prop} [Decidable c] {b b' : Build α} (hb : Logging id b)
    (hb' : Logging id b') :
  Logging id (if c then b else b')
  := by
  split
  · exact hb
  · exact hb'

/-- So does what follows on an answer. -/
theorem logging_ask {f : Workspace → Except BuildError α} {g : α → Build β}
    (hg : ∀ w a, f w = .ok a → Logging id (g a)) :
  Logging id (ask f >>= g)
  := by
  intro w w' d c h hid hlogged hok
  rw [exec_bind, exec_ask] at hok
  cases hf : f w with
  | error e =>
      rw [hf] at hok
      cases hok
  | ok a =>
      rw [hf] at hok
      exact hg w a hf h hid hlogged hok

/-- Operations that keep it may follow each other. -/
theorem logging_bind {b : Build α} {g : α → Build β} (hb : Logging id b)
    (hg : ∀ a, Logging id (g a)) :
  Logging id (b >>= g)
  := by
  intro w w' d c h hid hlogged hok
  obtain ⟨a, w₁, hfirst, hok⟩ := exists_of_exec_bind_ok hok
  obtain ⟨d₁, h₁⟩ := hb h hid hlogged hfirst
  obtain ⟨d₂, h₂⟩ := hg a h₁.editable (h₁.id_eq.trans hid) h₁.logged hok
  exact ⟨d₂, h₁.trans h₂⟩

/-- A change of the type beside its members. -/
theorem logging_beside {f : TypeDecl → TypeDecl}
    (hf : ∀ d, { f d with nextLiteral := d.nextLiteral, customAttributes := d.customAttributes } = d) :
  Logging id (updateType id f)
  := by
  rintro w w' d a h rfl hlogged hok
  rw [exec_updateType] at hok
  cases hok
  have hid : (f d).id = d.id := (congrArg TypeDecl.id (hf d) :)
  refine ⟨f d, .updated h hid (congrArg TypeDecl.state (hf d) :) ?_⟩
  exact hlogged.of_members (congrArg TypeDecl.fields (hf d) :) (congrArg TypeDecl.methods (hf d) :)
    (congrArg TypeDecl.properties (hf d) :) (congrArg TypeDecl.members (hf d) :)

/-! ### Fields -/

/-- A field is logged as it is added. -/
theorem logging_pushField (id : TypeId) (f : FieldDecl) : Logging id (pushField id f) := by
  rintro w w' d r h rfl hlogged hok
  rw [pushField, exec_bind, exec_building h] at hok
  dsimp only at hok
  rw [exec_ite] at hok
  split at hok
  · cases hok
  · next hfree =>
    rw [exec_bind, exec_updateType] at hok
    cases hok
    exact ⟨d.pushField f, .updated h rfl rfl (hlogged.pushField (eq_false_of_ne_true hfree))⟩

/-- Defining a field logs it. -/
theorem logging_defineField (id : TypeId) (name : String) (t : TypeRef) (spec : FieldSpec) :
  Logging id (defineField id name t spec)
  := by
  apply logging_ite (refusing_throw_bind _ _).logging
  apply logging_ask
  intro w d _
  split
  · apply logging_pure
  · exact (refusing_invalid id _).logging
  · apply logging_ite (refusing_invalid id _).logging
    apply logging_bind (logging_pushField id _)
    intro f
    apply logging_pure

/-- So does defining a literal. -/
theorem logging_defineLiteral (id : TypeId) (name : String) (value : Option Int64) :
  Logging id (defineLiteral id name value)
  := by
  apply logging_ite (refusing_throw_bind _ _).logging
  apply logging_ask
  intro w d _
  split
  · apply logging_ite (refusing_invalid id _).logging
    apply logging_bind (logging_pushField id _)
    intro f
    apply logging_bind
    · exact logging_beside (f := fun e => { e with nextLiteral := value.getD d.nextLiteral + 1 })
        fun _ => rfl
    · intro _
      apply logging_pure
  · exact (refusing_invalid id _).logging

/-! ### Methods -/

/-- A method that is reserved stands beside the others. -/
theorem hasMethodLike_of_reserve
    {entry : MethodDecl} {m : MethodRef} (h : w.Editable d)
    (hok : (reserveMethod d.id entry).exec w = (.ok m, w')) :
  d.hasMethodLike entry = false
  := by
  rw [reserveMethod, exec_bind, exec_building h] at hok
  dsimp only at hok
  rw [exec_ite] at hok
  split at hok
  · cases hok
  · next hfree => exact eq_false_of_ne_true hfree

/-- A method that is reserved has no body yet, and gets one unless it is abstract. -/
theorem logging_reserve
    {entry : MethodDecl} {f : MethodRef → Build (MethodRef × List ρ)}
    (hf : ∀ {w w' : Workspace} {d : TypeDecl} {r : MethodRef × List ρ}, w.Editable d →
      (f (d.methodRef d.methods.length)).exec (w.redefining (d.pushMethod entry)) = (.ok r, w') →
      ∃ body, w' = w.redefining (d.pushMethod { entry with body := body })
        ∧ (body = none ↔ entry.isAbstract = true)) :
  Logging id (reserveMethod id entry >>= f)
  := by
  rintro w w' d r h rfl hlogged hok
  obtain ⟨m, w₁, hreserve, hok⟩ := exists_of_exec_bind_ok hok
  have hfree := hasMethodLike_of_reserve h hreserve
  obtain ⟨e, hexec⟩ | hexec := exec_reserve h entry
  · rw [hexec] at hreserve
    cases hreserve
  · rw [hexec] at hreserve
    cases hreserve
    obtain ⟨body, rfl, hbody⟩ := hf h hok
    exact ⟨_, .redefining h rfl rfl (hlogged.pushMethod (m := { entry with body := body }) hfree hbody)⟩

/-- A method that is reserved is logged, and taken out of the log if it fails. -/
theorem logging_complete
    {entry : MethodDecl} (target : Option Overridden) (body : Body ρ)
    (habstract : entry.isAbstract = false) :
  Logging id (reserveMethod id entry >>= fun m => completeMethod m target body)
  := by
  apply logging_reserve
  intro w w' d r h hok
  obtain ⟨e, hexec⟩ | ⟨result, remarks, hexec⟩ := exec_completeMethod h entry target body
  · rw [hexec] at hok
    cases hok
  · rw [hexec] at hok
    cases hok
    exact ⟨some result, rfl, by simp [habstract]⟩

/-- Defining a method logs it. -/
theorem logging_defineMethod
    (id : TypeId) (name : String) (spec : MethodSpec) (body : Body ρ) (kind : MethodKind) :
  Logging id (defineMethod id name spec body kind)
  := by
  apply logging_ask
  rintro w ⟨entry, target⟩ hdeclared
  obtain ⟨d, -, hentry, -⟩ := declaration_ok hdeclared
  have hnone : entry.body = none := congrArg MethodDecl.body hentry
  dsimp only
  cases habstract : entry.isAbstract with
  | true =>
      apply logging_reserve
      intro w w' d r h hok
      cases hok
      refine ⟨none, ?_, by simp [habstract]⟩
      rw [← hnone]
  | false =>
      simp only [Bool.false_eq_true, if_false]
      exact logging_complete target body habstract

/-- So does defining a constructor. -/
theorem logging_defineConstructor (id : TypeId) (spec : ConstructorSpec) (body : Body ρ) :
  Logging id (defineConstructor id spec body)
  := by
  apply logging_ask
  intro w d _
  apply logging_ite (refusing_throw_bind _ _).logging
  apply logging_ite (refusing_throw_bind _ _).logging
  apply logging_complete none body
  obtain ⟨visibility, static, params⟩ := spec
  cases visibility <;> rfl

/-! ### Properties -/

/-- The field of an auto property is logged. -/
theorem logging_accessorBodies (id : TypeId) (name : String) (t : TypeRef) (spec : PropertySpec ρ) :
  Logging id (accessorBodies id name t spec)
  := by
  apply logging_ask
  intro w d _
  dsimp only
  split
  · apply logging_ite
    · apply logging_pure
    · apply logging_bind (logging_defineField id _ t _)
      intro f
      split
      · exact (refusing_invalid id _).logging
      · apply logging_pure
  · exact (refusing_invalid id _).logging
  · apply logging_pure

/-- So are its accessors. -/
theorem logging_defineAccessor
    (id : TypeId) (name : String) (spec : MethodSpec) (kind : MethodKind) (body : Option (Body ρ)) :
  Logging id (defineAccessor id name spec kind body)
  := by
  cases body with
  | none => apply logging_pure
  | some body =>
      apply logging_bind (logging_defineMethod id name spec body kind)
      intro (m, remarks)
      apply logging_pure

/-- What a type has become, if it is known what an operation has left. -/
theorem Logging.logged
    {b : Build α} {a : α} (hb : Logging id b) (h : w.Editable d) (hid : d.id = id)
    (hlogged : d.Logged) (hid' : d'.id = d.id) (hok : b.exec w = (.ok a, w.redefining d')) :
  d'.Logged
  := by
  obtain ⟨d'', hrelogs⟩ := hb h hid hlogged hok
  rw [h.redefining_inj hid' hrelogs.id_eq hrelogs.eq]
  exact hrelogs.logged

/-- A property stands behind the others, and its parts are members of the type. -/
theorem parts_of_defineProperty
    {name : String} {t : TypeRef} {spec : PropertySpec ρ} {r : PropertyRef} {remarks : List ρ}
    {p : PropertyDecl} (h : w.Editable d) (hid : d'.id = d.id)
    (hok : (defineProperty d.id name t spec).exec w
      = (.ok (r, remarks), w.redefining (d'.pushProperty p))) :
  d'.properties = d.properties ∧ ∀ handle ∈ r.handles, (d'.pushProperty p).Has handle
  := by
  obtain ⟨e, hexec⟩ | ⟨r', remarks', p', d'', hexec, happends, -, hhas⟩ :=
    exec_defineProperty h name t spec
  · rw [hexec] at hok
    cases hok
  · rw [hexec] at hok
    obtain ⟨hanswer, hleft⟩ := Prod.mk.inj hok
    cases hanswer
    have hsame : d''.pushProperty p' = d'.pushProperty p :=
      h.redefining_inj happends.id_eq hid hleft
    have hproperties : d''.properties ++ [p'] = d'.properties ++ [p] :=
      congrArg TypeDecl.properties hsame
    refine ⟨?_, hsame ▸ hhas⟩
    rw [← happends.properties]
    exact (List.append_inj_left' hproperties rfl).symm

/-- So is a property with all its parts, and a property that fails leaves no entry.  Each part
leaves the lists fitting together for the next one. -/
theorem logging_defineProperty (id : TypeId) (name : String) (t : TypeRef) (spec : PropertySpec ρ) :
  Logging id (defineProperty id name t spec)
  := by
  rintro w w' d ⟨r, remarks⟩ h rfl hlogged hok
  obtain ⟨hadd, -, -, hfree⟩ := addProperty_of_defineProperty h hok
  obtain ⟨bodies, d₁, d₂, d₃, first, second, hbodies, hw₁, hid₁, hgetter, hw₂, h₂, hsetter, hw₃, h₃,
    hfield, rfl⟩ := exec_addProperty_ok h hadd
  have hid₂ : d₂.id = d.id := h₂.id_eq.trans hid₁
  have hid₃ : d₃.id = d.id := h₃.id_eq.trans hid₂
  rw [← redefining_redefining h₂.id_eq] at hgetter
  rw [← redefining_redefining h₃.id_eq] at hsetter
  have hlogged₁ : d₁.Logged :=
    (logging_accessorBodies d.id name t spec).logged h rfl hlogged hid₁ hbodies
  have hlogged₂ : d₂.Logged :=
    (logging_defineAccessor d.id _ _ _ _).logged hw₁ hid₁ hlogged₁ h₂.id_eq hgetter
  have hlogged₃ : d₃.Logged :=
    (logging_defineAccessor d.id _ _ _ _).logged hw₂ hid₂ hlogged₂ h₃.id_eq hsetter
  obtain ⟨hproperties, hparts⟩ := parts_of_defineProperty h hid₃ hok
  refine ⟨_, .redefining h hid₃ (hw₃.building.trans h.building.symm) (hlogged₃.pushProperty ?_ ?_)⟩
  · rw [hproperties]
    exact hfree
  · constructor
    case getter =>
      intro i hi
      obtain ⟨m, hm, rfl⟩ := Option.map_eq_some_iff.mp hi
      exact (hparts (.method m) (by simp [PropertyRef.handles, hm])).2
    case setter =>
      intro i hi
      obtain ⟨m, hm, rfl⟩ := Option.map_eq_some_iff.mp hi
      exact (hparts (.method m) (by simp [PropertyRef.handles, hm])).2
    case backingField =>
      intro i hi
      obtain ⟨f, hf, rfl⟩ := Option.map_eq_some_iff.mp hi
      exact (hparts (.field f) (by simp [PropertyRef.handles, hf])).2

/-! ### Bodies, attributes and links -/

/-- What is done to a method needs a type that is being built. -/
theorem needs_buildingMethod (m : MethodRef) (g : MethodDecl → Build α) :
  Needs m.owner (buildingMethod m >>= g)
  := by
  intro w e he
  refine ⟨e, ?_⟩
  rw [exec_bind, buildingMethod, building, exec_bind, exec_ask, he]

/-- Only a method with a body can get another one. -/
theorem not_abstract_of_replaceBody
    {m : MethodRef} {method : MethodDecl} {body : Body ρ} {remarks : List ρ} (h : w.Editable d)
    (hid : d.id = m.owner) (hmethod : d.methods[m.index]? = some method)
    (hok : (replaceBody m body).exec w = (.ok remarks, w')) :
  method.isAbstract = false
  := by
  cases habstract : method.isAbstract with
  | false => rfl
  | true =>
      have hfound : (buildingMethod m).exec w = (.ok method, w) := by
        rw [buildingMethod, ← hid, exec_bind, exec_building h]
        dsimp only
        rw [hmethod]
        rfl
      rw [replaceBody, exec_bind, hfound] at hok
      dsimp only at hok
      rw [exec_bind, exec_get] at hok
      dsimp only at hok
      rw [exec_ite, if_pos habstract] at hok
      cases hok

/-- Replacing a body leaves the log as it is. -/
theorem logging_replaceBody (m : MethodRef) (body : Body ρ) : Logging m.owner (replaceBody m body) := by
  intro w w' d remarks h hid hlogged hok
  obtain ⟨e, method, target, result, he, hmethod, -, rfl⟩ := exec_replaceBody_ok hok
  rw [← hid, h.building_eq] at he
  cases he
  have habstract := not_abstract_of_replaceBody h hid hmethod hok
  have hmodified : (d.setBody m.index result).Logged := by
    apply hlogged.modify m.index (f := fun e => { e with body := some result }) fun _ => rfl
    intro other hother
    rw [hmethod] at hother
    cases hother
    simp [habstract]
  rw [← hid]
  exact ⟨_, .updated h (f := (·.setBody m.index result)) rfl rfl hmodified⟩

/-- So does an attribute of a method. -/
theorem logging_setMethodAttribute (m : MethodRef) (custom : CustomAttribute) :
  Logging m.owner (setMethodAttribute m custom)
  := by
  intro w w' d _ h hid hlogged hok
  obtain ⟨e, hexec⟩ | ⟨e, method, -, hexec⟩ := exec_buildingMethod m w
  · rw [setMethodAttribute, exec_bind, hexec] at hok
    cases hok
  · rw [setMethodAttribute, exec_bind, hexec] at hok
    cases hok
    rw [← hid]
    refine ⟨_, .updated h rfl rfl (hlogged.modify m.index (fun _ => rfl) ?_)⟩
    exact fun method hmethod => hlogged.bodies method (List.mem_of_getElem? hmethod)

/-- So does one of a type. -/
theorem logging_setTypeAttribute (id : TypeId) (custom : CustomAttribute) :
  Logging id (setTypeAttribute id custom)
  := by
  apply logging_ask
  intro w d _
  exact logging_beside (f := fun d => { d with customAttributes := d.customAttributes ++ [custom] })
    fun _ => rfl

/-- So does a base. -/
theorem logging_setBase (id : TypeId) (base : TypeRef) : Logging id (setBase id base) := by
  rintro w w' d _ h rfl hlogged hok
  obtain ⟨e, hexec⟩ | ⟨_, base', -, -, -, -, hexec⟩ := exec_setBase d.id base w
  · rw [hexec] at hok
    cases hok
  · rw [hexec] at hok
    cases hok
    exact ⟨_, .updated h (f := fun d => { d with base := base' }) rfl rfl
      (hlogged.of_members rfl rfl rfl rfl)⟩

/-- So does an interface. -/
theorem logging_addInterface (id : TypeId) (interface : TypeRef) :
  Logging id (addInterface id interface)
  := by
  rintro w w' d _ h rfl hlogged hok
  obtain ⟨e, hexec⟩ | ⟨_, -, -, -, hexec⟩ := exec_addInterface d.id interface w
  · rw [hexec] at hok
    cases hok
  · rw [hexec] at hok
    cases hok
    refine ⟨_, .updated h (congrArg DefinedType.id (implementing_handle interface d)) ?_ ?_⟩
    · split <;> rfl
    · split
      · exact hlogged
      · exact hlogged.of_members rfl rfl rfl rfl

end Build

/-! ## Lifetimes -/

namespace Workspace

variable {w : Workspace} {d : TypeDecl}

/-- The lists of all types of a unit fit together. -/
def Logged (w : Workspace) : Prop :=
  ∀ d ∈ w.assembly.types, d.Logged

/-- A logged declaration may replace one. -/
theorem Logged.redefining (h : w.Logged) (hd : d.Logged) : (w.redefining d).Logged := by
  intro e he
  obtain rfl | he := mem_redefining he
  · exact hd
  · exact h e he

/-- A logged declaration may be added. -/
theorem Logged.declaring (h : w.Logged) (hd : d.Logged) : (w.declaring d).Logged := by
  have hentered : (w.enterType d).Logged := by
    intro e he
    obtain he | rfl := mem_enterType he
    · exact h e he
    · exact hd
  rw [Workspace.declaring]
  split
  · intro e he
    obtain ⟨e₀, he₀, rfl⟩ := List.mem_map.mp he
    split
    · exact (hentered e₀ he₀).of_members rfl rfl rfl rfl
    · exact hentered e₀ he₀
  · exact hentered

/-- Realizing types leaves the logs as they are. -/
theorem Logged.realizing (h : w.Logged) (new : List RealizedType) : (w.realizing new).Logged := by
  intro e he
  rw [types_realizing] at he
  obtain ⟨e₀, he₀, rfl⟩ := List.mem_map.mp he
  split
  · exact (h e₀ he₀).of_members rfl rfl rfl rfl
  · exact h e₀ he₀

/-- A new type has no members. -/
theorem logged_of_newType
    {name : String} {kind : TypeKind} {spec : TypeSpec} {enclosing : Option TypeId}
    (h : w.newType name kind spec enclosing = .ok d) :
  d.Logged
  := by
  rw [newType] at h
  dsimp only at h
  obtain ⟨-, h⟩ := of_guard_ok h
  obtain ⟨-, h⟩ := of_guard_ok h
  obtain ⟨fullName, -, h⟩ := exists_of_bind_ok h
  obtain ⟨-, h⟩ := of_guard_ok h
  obtain ⟨base, -, h⟩ := exists_of_bind_ok h
  split at h <;>
  · obtain ⟨interfaces, -, h⟩ := exists_of_bind_ok h
    cases h
    exact .of_nil rfl rfl rfl rfl

end Workspace

namespace Build

variable {w : Workspace} {id : TypeId}

/-- An operation on one type. -/
theorem Logging.keeps
    {b : Build α} {f : α → List Handle} (hb : Logging id b) (hneeds : Needs id b)
    (hsettles : Settles w (f <$> b)) (horderly : w.Orderly) (h : w.Logged) :
  (b.exec w).2.Logged
  := by
  cases hanswer : (b.exec w).1 with
  | error e =>
      obtain ⟨e', hexec⟩ | ⟨handles, w', hexec, -⟩ := hsettles
      · rw [exec_map] at hexec
        rw [(Prod.mk.inj hexec).2]
        exact h
      · rw [exec_map, hanswer] at hexec
        cases hexec
  | ok a =>
      cases hd : w.assembly.building id with
      | error e =>
          obtain ⟨e', hexec⟩ := hneeds hd
          rw [hexec] at hanswer
          cases hanswer
      | ok d =>
          obtain ⟨heditable, hid⟩ := horderly.editable hd
          obtain ⟨d', hrelogs⟩ := hb heditable hid (h d heditable.mem) (Prod.ext hanswer rfl)
          have hleft : (b.exec w).2 = w.redefining d' := hrelogs.eq
          rw [hleft]
          exact h.redefining hrelogs.logged

end Build

/-- No operation changes that the lists of all types fit together. -/
theorem Change.logged {w : Workspace} (c : Change ρ) (horderly : w.Orderly) (h : w.Logged) :
  (c.perform w).Logged
  := by
  have hsettles := c.settles horderly
  cases c with
  | declareType name kind spec enclosing =>
      rw [perform]
      obtain ⟨e, hexec⟩ | ⟨new, hnew, hexec⟩ := Build.exec_declareType name kind spec enclosing w
      · rw [hexec]
        exact h
      · rw [hexec]
        exact h.declaring (Workspace.logged_of_newType hnew)
  | setBase id base =>
      exact (Build.logging_setBase id base).keeps (Build.needs_building _) hsettles horderly h
  | addInterface id interface =>
      exact (Build.logging_addInterface id interface).keeps (Build.needs_building _) hsettles
        horderly h
  | defineField id name t spec =>
      exact (Build.logging_defineField id name t spec).keeps
        (Build.needs_guard (Build.needs_building _)) hsettles horderly h
  | defineLiteral id name value =>
      exact (Build.logging_defineLiteral id name value).keeps
        (Build.needs_guard (Build.needs_building _)) hsettles horderly h
  | defineMethod owner name spec body =>
      exact (Build.logging_defineMethod owner name spec body .method).keeps
        (Build.needs_defineMethod owner name spec body .method) hsettles horderly h
  | defineConstructor owner spec body =>
      exact (Build.logging_defineConstructor owner spec body).keeps (Build.needs_building _) hsettles
        horderly h
  | defineProperty id name t spec =>
      exact (Build.logging_defineProperty id name t spec).keeps
        (Build.needs_guard (Build.needs_building _)) hsettles horderly h
  | replaceBody m body =>
      exact (Build.logging_replaceBody m body).keeps (Build.needs_buildingMethod m _) hsettles
        horderly h
  | setMethodAttribute m custom =>
      exact (Build.logging_setMethodAttribute m custom).keeps (Build.needs_buildingMethod m _)
        hsettles horderly h
  | setTypeAttribute id custom =>
      exact (Build.logging_setTypeAttribute id custom).keeps (Build.needs_building _) hsettles
        horderly h
  | finalize =>
      rw [perform]
      obtain hsame | ⟨new, unit, -, -, hexec⟩ := Build.finalize_outcome horderly.toFresh
      · rw [hsame]
        exact h
      · rw [hexec]
        exact h.realizing new

namespace Project

variable {p q : Project}

/-- The lists of all types of all units fit together. -/
def Logged (p : Project) : Prop :=
  ∀ (i : Nat) (a : Assembly), p.units[i]? = some a → ∀ d ∈ a.types, d.Logged

/-- The logs of a project give the methods their indices. -/
theorem Logged.indexed (h : p.Logged) : p.Indexed :=
  fun i a ha d hd => (h i a ha d hd).indexed

/-- Whatever a project turns into is logged. -/
theorem Logged.turns (h : p.Logged) (hsound : p.Sound) (hq : p.Turns ρ q) : q.Logged := by
  cases hq with
  | stays => exact h
  | registers registry => exact h
  | opens name =>
      intro j b hb
      obtain hb | rfl := open_cases hb
      · exact h j b hb
      · rintro d ⟨⟩
  | @changes i a ha c =>
      intro j b hb
      obtain ⟨-, rfl⟩ | ⟨-, hb⟩ := put_cases ha hb
      · exact c.logged (h.indexed.orderly hsound ha) (h i a ha)
      · exact h j b hb

/-- After each operation of a session, accepted or refused, the lists of all types fit together.
The list of all members has one entry for each field, each property and each method, in the order of
their indices, with the entries of its generic parameters behind the entry of a method; no two
members of a kind are alike; the accessors and the field of a property are there; and the methods
without bodies are the abstract ones. -/
theorem logged_run (verify : Bool) (history : List (HostEvent ρ)) :
  ((empty verify).run history).Logged
  := by
  apply run_induction verify
  · rintro i a ⟨⟩
  · intro p q hsound h hq
    exact h.turns hsound hq
  · intro p h
    exact h

end Project

end ManagedCode
