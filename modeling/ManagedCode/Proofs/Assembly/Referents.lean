import ManagedCode.Proofs.Assembly.FieldSlots
import ManagedCode.Proofs.Assembly.Refusals

/-!
# What handles stand for

A handle stands for a type or for a member of a type, which it knows by position.  The profile of a
type is all that its handles can stand for.  A realized type has the profile of its declaration
(`Workspace.layoutType_profile`), and whatever is added to a type, a handle goes on to stand for
the same (`TypeDecl.Prolongs.referent?`).
-/

namespace ManagedCode

/-- The type whose handle it is, or the one that has the member. -/
def Handle.owner : Handle → TypeId
  | .type id => id
  | .method m => m.owner
  | .field f => f.owner
  | .property p => p.owner

/-- What a handle stands for. -/
inductive Referent where
  | type (handle : DefinedType) (name fullName : String) (attributes : TypeAttributes)
      (enclosing : Option TypeId)
  | method (handle : MethodRef) (name : String) (kind : MethodKind) (attributes : MethodAttributes)
      (params : List Parameter) (returnType : TypeRef) (genericParams : List String)
      (overrides : Option MethodRef)
  | field (handle : FieldRef) (name : String) (type : TypeRef) (attributes : FieldAttributes)
      (constant : Option Constant)
  | property (name : String) (type : TypeRef) (getter setter : Option MethodRef)
      (backingField : Option FieldRef)

/-- The name that a handle stands for. -/
def Referent.name : Referent → String
  | .type _ name _ _ _ => name
  | .method _ name _ _ _ _ _ _ => name
  | .field _ name _ _ _ => name
  | .property name _ _ _ _ => name

/-- What the handles of a type stand for: the type itself, and its members by their positions. -/
structure Profile where
  id : TypeId
  type : Referent
  methods : List Referent
  fields : List Referent
  properties : List Referent

namespace Profile

/-- What is at the position that a handle tells. -/
def at? (p : Profile) : Handle → Option Referent
  | .type _ => some p.type
  | .method m => p.methods[m.index]?
  | .field f => p.fields[f.index]?
  | .property r => p.properties[r.index]?

/-- What a handle stands for, if it is a handle of the type. -/
def referent? (p : Profile) (h : Handle) : Option Referent :=
  if p.id = h.owner then p.at? h else none

end Profile

/-! ## Declarations -/

def MethodDecl.referent (m : MethodDecl) (handle : MethodRef) : Referent :=
  .method handle m.name m.kind m.attributes m.params m.returnType m.genericParams m.overrides

def FieldDecl.referent (f : FieldDecl) (handle : FieldRef) : Referent :=
  .field handle f.name f.type f.attributes f.constant

def PropertyDecl.referent (p : PropertyDecl) (d : TypeDecl) : Referent :=
  .property p.name p.type (p.getter.map d.methodRef) (p.setter.map d.methodRef)
    (p.backingField.map d.fieldRef)

namespace TypeDecl

/-- What handles of a type stand for, while it is under construction. -/
def profile (d : TypeDecl) : Profile :=
  { id := d.id
    type := .type d.handle d.name d.fullName d.attributes d.enclosing
    methods := d.methods.mapIdx fun i m => m.referent (d.methodRef i)
    fields := d.fields.mapIdx fun i f => f.referent (d.fieldRef i)
    properties := d.properties.map (·.referent d) }

variable {d d' : TypeDecl} {h : Handle} {r : Referent}

/-- The handles of a declaration name it as their owner. -/
theorem Has.owner (hhas : d.Has h) : d.id = h.owner := by
  cases h with
  | type id => exact hhas
  | method m => exact hhas.1
  | field f => exact hhas.1
  | property p => exact hhas.1

/-- The handle of a type or of a member that there is stands for something. -/
theorem Has.referent? (hhas : d.Has h) : ∃ r, d.profile.referent? h = some r := by
  have hsome : ∃ r, d.profile.at? h = some r := by
    cases h with
    | type id => exact ⟨_, rfl⟩
    | method m => exact ⟨_, List.getElem?_eq_getElem (by simpa [profile] using hhas.2)⟩
    | field f => exact ⟨_, List.getElem?_eq_getElem (by simpa [profile] using hhas.2)⟩
    | property p => exact ⟨_, List.getElem?_eq_getElem (by simpa [profile] using hhas.2)⟩
  obtain ⟨r, hr⟩ := hsome
  exact ⟨r, (if_pos hhas.owner).trans hr⟩

theorem isPrefix_mapIdx
    {α β : Type} {l l' : List α} (hinitial : l <+: l') (f : Nat → α → β) :
  l.mapIdx f <+: l'.mapIdx f
  := by
  obtain ⟨rest, rfl⟩ := hinitial
  rw [List.mapIdx_append]
  exact List.prefix_append _ _

theorem getElem?_of_isPrefix
    {α : Type} {l l' : List α} {i : Nat} {x : α} (hinitial : l <+: l') (hx : l[i]? = some x) :
  l'[i]? = some x
  := by
  obtain ⟨rest, rfl⟩ := hinitial
  rw [List.getElem?_append_left (List.getElem?_eq_some_iff.mp hx).1, hx]

/-- What methods stand for is settled with their heads. -/
theorem methods_profile (d : TypeDecl) :
  d.profile.methods = (d.methods.map (·.head)).mapIdx fun i m => m.referent ⟨d.id, i⟩
  := by
  apply List.ext_getElem?
  intro i
  simp only [profile, List.getElem?_mapIdx, List.getElem?_map, Option.map_map]
  rfl

/-- What is added to a type comes behind what there is. -/
theorem Prolongs.profile (hprolongs : d.Prolongs d') :
  d'.profile.type = d.profile.type ∧ d.profile.methods <+: d'.profile.methods
    ∧ d.profile.fields <+: d'.profile.fields ∧ d.profile.properties <+: d'.profile.properties
  := by
  have hid := hprolongs.id_eq
  have hmethodRef : d'.methodRef = d.methodRef := by
    funext i
    rw [TypeDecl.methodRef, TypeDecl.methodRef, hid]
  have hfieldRef : d'.fieldRef = d.fieldRef := by
    funext i
    rw [TypeDecl.fieldRef, TypeDecl.fieldRef, hid]
  refine ⟨(congrArg (fun d => d.profile.type) hprolongs.place :), ?_, ?_, ?_⟩
  · rw [methods_profile, methods_profile, hid]
    exact isPrefix_mapIdx hprolongs.methods _
  · rw [TypeDecl.profile, TypeDecl.profile, hfieldRef]
    exact isPrefix_mapIdx hprolongs.fields _
  · have hreferent : (fun p : PropertyDecl => p.referent d') = (·.referent d) := by
      funext p
      rw [PropertyDecl.referent, PropertyDecl.referent, hmethodRef, hfieldRef]
    rw [TypeDecl.profile, TypeDecl.profile, hreferent]
    exact hprolongs.properties.map _

/-- Whatever is added to a type, a handle goes on to stand for the same. -/
theorem Prolongs.referent? (hprolongs : d.Prolongs d') (hr : d.profile.referent? h = some r) :
  d'.profile.referent? h = some r
  := by
  obtain ⟨htype, hmethods, hfields, hproperties⟩ := hprolongs.profile
  have hid : d'.profile.id = d.profile.id := hprolongs.id_eq
  have hat : d.profile.at? h = some r → d'.profile.at? h = some r := by
    cases h with
    | type id =>
        intro hr
        rw [← hr]
        exact congrArg some htype
    | method m => exact getElem?_of_isPrefix hmethods
    | field f => exact getElem?_of_isPrefix hfields
    | property p => exact getElem?_of_isPrefix hproperties
  rw [Profile.referent?] at hr ⊢
  rw [hid]
  split at hr
  · next howner => exact (if_pos howner).trans (hat hr)
  · cases hr

end TypeDecl

/-! ## Realized types -/

def RealizedMethod.referent (m : RealizedMethod) : Referent :=
  .method m.handle m.name m.kind m.attributes m.params m.returnType m.genericParams m.overrides

def RealizedField.referent (f : RealizedField) : Referent :=
  f.declared.referent f.handle

def RealizedProperty.referent (p : RealizedProperty) : Referent :=
  .property p.name p.type p.getter p.setter p.backingField

/-- What handles of a type stand for, once it is realized. -/
def RealizedType.profile (t : RealizedType) : Profile :=
  { id := t.id
    type := .type t.handle t.name t.fullName t.attributes t.enclosing
    methods := t.methods.map (·.referent)
    fields := t.fields.map (·.referent)
    properties := t.properties.map (·.referent) }

/-- Fields that have been laid out stand for what has been declared. -/
theorem FieldLayout.Lays.referents
    {owner : TypeId} {inherited : List Value} {ds : List FieldDecl} {l : FieldLayout}
    (h : Lays owner inherited ds l) :
  l.fields.map (·.referent) = ds.mapIdx fun i f => f.referent ⟨owner, i⟩
  := by
  apply List.ext_getElem?
  intro i
  have hdeclared := congrArg (·[i]?) h.declared
  have hhandles := congrArg (·[i]?) h.handles
  simp only [List.getElem?_map] at hdeclared hhandles
  rw [List.getElem?_map, List.getElem?_mapIdx, ← hdeclared]
  cases hf : l.fields[i]? with
  | none => rfl
  | some f =>
      rw [hf, Option.map_some] at hhandles
      obtain ⟨j, hj, hhandle⟩ := Option.map_eq_some_iff.mp hhandles.symm
      obtain ⟨hi, hsame⟩ := List.getElem?_eq_some_iff.mp hj
      rw [List.getElem_range] at hsame
      rw [Option.map_some, Option.map_some, Option.map_some, RealizedField.referent, ← hhandle,
        ← hsame]

namespace Workspace

variable {w : Workspace} {d : TypeDecl}

/-- A realized method stands for what has been declared. -/
theorem layoutMethod_referent
    {l l' : MethodLayout} {m : MethodDecl} (h : w.layoutMethod d l m = .ok l') :
  ∃ r : RealizedMethod, l'.methods = l.methods ++ [r]
    ∧ r.referent = m.referent (d.methodRef l.methods.length)
  := by
  rw [layoutMethod] at h
  dsimp only at h
  split at h
  · cases h
  split at h
  · cases h
  split at h
  · obtain ⟨⟨slot, vtable⟩, -, h⟩ := exists_of_bind_ok h
    cases h
    exact ⟨_, rfl, rfl⟩
  · cases h
    exact ⟨_, rfl, rfl⟩

/-- A layout keeps the methods in order, with what their handles stand for. -/
theorem layoutMethods_referents
    {ms : List MethodDecl} {l l' : MethodLayout} (h : ms.foldlM (w.layoutMethod d) l = .ok l') :
  l'.methods.map (·.referent)
    = l.methods.map (·.referent)
      ++ ms.mapIdx fun i m => m.referent (d.methodRef (i + l.methods.length))
  := by
  induction ms generalizing l with
  | nil =>
      cases h
      simp
  | cons m ms ih =>
      rw [List.foldlM_cons] at h
      obtain ⟨l₁, hone, hrest⟩ := exists_of_bind_ok h
      obtain ⟨r, hr, hreferent⟩ := layoutMethod_referent hone
      rw [ih hrest, hr, List.map_append, List.map_singleton, hreferent]
      simp [List.mapIdx_cons, Nat.add_right_comm _ 1, Nat.add_assoc]

/-- A realized type has the profile of its declaration. -/
theorem layoutType_profile {id : TypeId} {t : RealizedType} (h : w.layoutType id = .ok t)
    (hd : w.assembly.decl? id = some d) :
  t.profile = d.profile
  := by
  have hid := Assembly.decl?_id hd
  rw [layoutType] at h
  obtain ⟨d', hd', h⟩ := exists_of_bind_ok h
  rw [Assembly.decl_ok hd'] at hd
  obtain rfl := Option.some.inj hd
  obtain ⟨base, -, h⟩ := exists_of_bind_ok h
  obtain ⟨methods, hmethods, h⟩ := exists_of_bind_ok h
  obtain ⟨⟨all, map⟩, -, h⟩ := exists_of_bind_ok h
  obtain ⟨_, -, h⟩ := exists_of_bind_ok h
  cases h
  have hfields := (FieldLayout.lays_ofFields id ((base.map (·.instanceDefaults)).getD [])
    d'.fields).referents
  have hproperties : ∀ ps : List PropertyDecl, (ps.map fun p => (
      { name := p.name
        type := p.type
        getter := p.getter.map d'.methodRef
        setter := p.setter.map d'.methodRef
        backingField := p.backingField.map d'.fieldRef } : RealizedProperty)).map (·.referent)
      = ps.map (·.referent d') := by
    intro ps
    rw [List.map_map]
    rfl
  rw [RealizedType.profile, TypeDecl.profile]
  dsimp only
  rw [layoutMethods_referents hmethods, hfields, hproperties, ← hid]
  rfl

end Workspace

end ManagedCode
