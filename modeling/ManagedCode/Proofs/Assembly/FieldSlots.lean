import ManagedCode.Proofs.Assembly.Layers

/-!
# Slots of fields

The fields of a type are laid out in the order of their declarations, behind those of the base.
Each realized field is what has been declared, a field that every object has gets the next slot,
and the slot starts with the constant of the field or with the default of its type
(`FieldLayout.Lays`).
-/

namespace ManagedCode

namespace FieldDecl

/-- Whether every object has the field. -/
def isInstance (f : FieldDecl) : Bool :=
  !f.attributes.isLiteral && !f.isStatic

/-- What the slot of a field starts with: the declared constant in the form of the type, or the
default of the type. -/
def initial (f : FieldDecl) : Value :=
  match f.constant with
  | some c => (Value.ofConstant c).coerceTo f.type
  | none => Value.initial f.type

end FieldDecl

namespace RealizedField

/-- What a field has been declared as. -/
def declared (f : RealizedField) : FieldDecl :=
  { name := f.name, type := f.type, attributes := f.attributes, constant := f.constant }

def isInstance (f : RealizedField) : Bool :=
  f.declared.isInstance

def initial (f : RealizedField) : Value :=
  f.declared.initial

end RealizedField

namespace RealizedType

/-- The fields that a type adds to its objects. -/
def instanceFields (t : RealizedType) : List RealizedField :=
  t.fields.filter (·.isInstance)

end RealizedType

/-! ## Laying out fields -/

namespace FieldLayout

variable {owner : TypeId} {inherited : List Value} {ds : List FieldDecl} {l : FieldLayout}

/-- Declared fields have been laid out behind inherited slots. -/
structure Lays (owner : TypeId) (inherited : List Value) (ds : List FieldDecl) (l : FieldLayout) :
    Prop where
  declared : l.fields.map (·.declared) = ds
  handles : l.fields.map (·.handle) = (List.range ds.length).map (FieldRef.mk owner)
  defaults : l.instanceDefaults = inherited ++ (l.fields.filter (·.isInstance)).map (·.initial)
  slots : (l.fields.filter (·.isInstance)).map (·.slot)
    = (List.range' inherited.length (l.fields.filter (·.isInstance)).length).map .instance

/-- The next field keeps what it was declared with, and gets the next slot if every object has
it. -/
theorem push_ok (l : FieldLayout) (owner : TypeId) (f : FieldDecl) :
  ∃ r : RealizedField, (l.push owner f).fields = l.fields ++ [r]
    ∧ r.declared = f ∧ r.handle = ⟨owner, l.fields.length⟩
    ∧ if f.isInstance then r.slot = .instance l.instanceDefaults.length
        ∧ (l.push owner f).instanceDefaults = l.instanceDefaults ++ [f.initial]
      else (l.push owner f).instanceDefaults = l.instanceDefaults
  := by
  rw [push, FieldDecl.isInstance]
  cases hliteral : f.attributes.isLiteral with
  | true => exact ⟨_, rfl, rfl, rfl, rfl⟩
  | false =>
      cases hstatic : f.isStatic with
      | true => exact ⟨_, rfl, rfl, rfl, rfl⟩
      | false => exact ⟨_, rfl, rfl, rfl, rfl, rfl⟩

theorem Lays.push (h : Lays owner inherited ds l) (f : FieldDecl) :
  Lays owner inherited (ds ++ [f]) (l.push owner f)
  := by
  obtain ⟨r, hfields, rfl, hhandle, hslot⟩ := l.push_ok owner f
  have hlength : l.fields.length = ds.length := by
    rw [← h.declared, List.length_map]
  have hkept : (l.push owner r.declared).fields.filter (·.isInstance)
      = l.fields.filter (·.isInstance) ++ if r.declared.isInstance then [r] else [] := by
    rw [hfields, List.filter_append, List.filter_singleton, cond_eq_ite]
    rfl
  constructor
  · rw [hfields, List.map_append, h.declared]
    rfl
  · rw [hfields, List.map_append, h.handles, List.map_singleton, hhandle, hlength]
    simp [List.range_succ]
  · rw [hkept]
    split at hslot
    · next hinstance =>
      rw [hslot.2, h.defaults, if_pos hinstance, List.map_append, List.append_assoc]
      rfl
    · next hinstance =>
      rw [hslot, h.defaults, if_neg hinstance, List.append_nil]
  · rw [hkept]
    split at hslot
    · next hinstance =>
      have hnext : l.instanceDefaults.length
          = inherited.length + (l.fields.filter (·.isInstance)).length := by
        rw [h.defaults, List.length_append, List.length_map]
      rw [if_pos hinstance, List.map_append, h.slots, List.length_append, List.map_singleton,
        hslot.1, hnext]
      simp [List.range'_1_concat]
    · next hinstance =>
      rw [if_neg hinstance, List.append_nil, h.slots]

/-- All fields of a type. -/
theorem lays_ofFields (owner : TypeId) (inherited : List Value) (ds : List FieldDecl) :
  Lays owner inherited ds (ofFields owner inherited ds)
  := by
  have hfrom : ∀ {l : FieldLayout} {before : List FieldDecl}, Lays owner inherited before l →
      Lays owner inherited (before ++ ds) (ds.foldl (·.push owner ·) l) := by
    induction ds with
    | nil =>
        intro l before h
        rwa [List.append_nil]
    | cons f ds ih =>
        intro l before h
        rw [List.append_cons]
        apply ih (h.push f)
  apply @hfrom ⟨[], inherited, []⟩ []
  exact ⟨rfl, rfl, (List.append_nil inherited).symm, rfl⟩

/-- The fields that a type has once have slots on its static side. -/
def Stationed (fs : List RealizedField) : Prop :=
  ∀ f ∈ fs, f.isLiteral = false → f.declared.isStatic = true → ∃ k, f.slot = .static k

theorem stationed_push (h : Stationed l.fields) (owner : TypeId) (f : FieldDecl) :
  Stationed (l.push owner f).fields
  := by
  have hnext : ∃ r : RealizedField, (l.push owner f).fields = l.fields ++ [r]
      ∧ (r.isLiteral = false → r.declared.isStatic = true → ∃ k, r.slot = .static k) := by
    rw [push]
    cases hliteral : f.attributes.isLiteral with
    | true =>
        refine ⟨_, rfl, fun hnot => ?_⟩
        exact absurd (hliteral.symm.trans hnot) Bool.noConfusion
    | false =>
        cases hstatic : f.isStatic with
        | true => exact ⟨_, rfl, fun _ _ => ⟨_, rfl⟩⟩
        | false =>
            refine ⟨_, rfl, fun _ hnot => ?_⟩
            exact absurd (hstatic.symm.trans hnot) Bool.noConfusion
  obtain ⟨r, hfields, hr⟩ := hnext
  intro g hg
  rw [hfields] at hg
  obtain hg | hg := List.mem_append.mp hg
  · exact h g hg
  · exact List.mem_singleton.mp hg ▸ hr

theorem stationed_ofFields (owner : TypeId) (inherited : List Value) (ds : List FieldDecl) :
  Stationed (ofFields owner inherited ds).fields
  := by
  have hfrom : ∀ l : FieldLayout, Stationed l.fields →
      Stationed (ds.foldl (·.push owner ·) l).fields := by
    induction ds with
    | nil => exact fun l h => h
    | cons f ds ih => exact fun l h => ih _ (stationed_push h owner f)
  exact hfrom ⟨[], inherited, []⟩ (by simp [Stationed])

end FieldLayout

/-! ## Fields of realized types -/

namespace Workspace

variable {w : Workspace} {id : TypeId} {t : RealizedType}

/-- What a realized type gets from laying out its fields behind its base. -/
theorem layoutType_fields (h : w.layoutType id = .ok t) :
  ∃ d base, w.assembly.decl? id = some d ∧ w.layoutBase d = .ok base
    ∧ t.base = base.map (·.id)
    ∧ FieldLayout.Lays id ((base.map (·.instanceDefaults)).getD []) d.fields
        ⟨t.fields, t.instanceDefaults, t.staticDefaults⟩
  := by
  rw [layoutType] at h
  obtain ⟨d, hd, h⟩ := exists_of_bind_ok h
  obtain ⟨base, hbase, h⟩ := exists_of_bind_ok h
  obtain ⟨methods, hmethods, h⟩ := exists_of_bind_ok h
  obtain ⟨⟨all, map⟩, -, h⟩ := exists_of_bind_ok h
  obtain ⟨_, -, h⟩ := exists_of_bind_ok h
  cases h
  exact ⟨d, base, Assembly.decl_ok hd, hbase, rfl, FieldLayout.lays_ofFields id _ d.fields⟩

theorem layoutType_stationed (h : w.layoutType id = .ok t) : FieldLayout.Stationed t.fields := by
  rw [layoutType] at h
  obtain ⟨d, hd, h⟩ := exists_of_bind_ok h
  obtain ⟨base, hbase, h⟩ := exists_of_bind_ok h
  obtain ⟨methods, hmethods, h⟩ := exists_of_bind_ok h
  obtain ⟨⟨all, map⟩, -, h⟩ := exists_of_bind_ok h
  obtain ⟨_, -, h⟩ := exists_of_bind_ok h
  cases h
  exact FieldLayout.stationed_ofFields id _ d.fields

end Workspace

/-- The values that a type takes over for the slots of its base. -/
def RealizedType.inheritedDefaults (ts : List RealizedType) (t : RealizedType) : List Value :=
  ((t.base.bind fun b => ts.find? (·.id == b)).map (·.instanceDefaults)).getD []

theorem RealizedBase.inheritedDefaults
    {ts : List RealizedType} {t u : RealizedType} (h : RealizedBase ts t u) :
  t.inheritedDefaults ts = u.instanceDefaults
  := by
  obtain ⟨x, hx, hu⟩ := h
  rw [RealizedType.inheritedDefaults]
  rw [hx, Option.bind_some, hu]
  rfl

/-- Each type has the fields that it declares, laid out behind those of its base.  A base has been
realized before, so that it is found among more types as well. -/
theorem Layered.fields
    {verify : Bool} {decls : TypeId → Option TypeDecl} {ts : List RealizedType}
    (h : Layered verify decls ts) {t : RealizedType} (ht : t ∈ ts) :
  ∃ d, decls t.id = some d
    ∧ FieldLayout.Lays t.id (t.inheritedDefaults ts) d.fields
        ⟨t.fields, t.instanceDefaults, t.staticDefaults⟩
  := by
  induction h with
  | nil => cases ht
  | @snoc w t' d h hsettled hverify hd hbuilding hdecl hkept hlayout ih =>
      have hsame : ∀ {t : RealizedType}, (∀ b, t.base = some b →
          ∃ u, w.session.types.find? (·.id == b) = some u) →
          t.inheritedDefaults (w.session.types ++ [t']) = t.inheritedDefaults w.session.types := by
        intro t hbase
        rw [RealizedType.inheritedDefaults, RealizedType.inheritedDefaults]
        cases hb : t.base with
        | none => rfl
        | some b =>
            obtain ⟨u, hu⟩ := hbase b hb
            rw [Option.bind_some, Option.bind_some, find?_append_of_some hu, hu]
      obtain ht | ht := List.mem_append.mp ht
      · rw [hsame]
        · apply ih ht
        · intro b hb
          obtain ⟨u, hu, -⟩ := h.tabled.base t ht b hb
          exact ⟨u, hu⟩
      · obtain rfl := List.mem_singleton.mp ht
        obtain ⟨d', base, hd', hlaid, hbase, hlays⟩ := Workspace.layoutType_fields hlayout
        rw [hd] at hd'
        cases hd'
        obtain ⟨hrealized, hid⟩ := Workspace.layoutBase_ok hlaid
        rw [hrealized, ← hid, ← hbase] at hlays
        rw [hsame]
        · exact ⟨_, hdecl, hlays⟩
        · intro b hb
          rw [hbase] at hb
          obtain ⟨u, rfl, rfl⟩ := Option.map_eq_some_iff.mp hb
          exact ⟨u, Workspace.layoutBase_some hlaid⟩

theorem Layered.stationed
    {verify : Bool} {decls : TypeId → Option TypeDecl} {ts : List RealizedType}
    (h : Layered verify decls ts) {t : RealizedType} (ht : t ∈ ts) :
  FieldLayout.Stationed t.fields
  := by
  induction h with
  | nil => cases ht
  | snoc h hsettled hverify hd hbuilding hdecl hkept hlayout ih =>
      obtain ht | ht := List.mem_append.mp ht
      · exact ih ht
      · obtain rfl := List.mem_singleton.mp ht
        exact Workspace.layoutType_stationed hlayout

end ManagedCode
