import ManagedCode.Proofs.Assembly.Anchors
import ManagedCode.Proofs.Assembly.Holders

/-!
# How methods are arranged

What laying out the methods of a type makes of each of them: a virtual method of a class gets
the slot of the base method that it is linked to, or one behind all slots that there are, and
a slot holds the last method of the type that has been given it, or else what it has held in
the base (`Workspace.Arranges`).  In the session this is true of every type, with respect to
its base and to the declaration that its unit has of it (`Project.Arranged`).
-/

namespace ManagedCode

open Relation

/-- The last of the methods that have been given a slot. -/
def lastIn (ms : List RealizedMethod) (slot : Nat) : Option RealizedMethod :=
  (ms.filter (·.vtableSlot == some slot)).getLast?

theorem lastIn_append (ms : List RealizedMethod) (m : RealizedMethod) (slot : Nat) :
  lastIn (ms ++ [m]) slot = if m.vtableSlot = some slot then some m else lastIn ms slot
  := by
  rw [lastIn]
  rw [List.filter_append]
  by_cases hslot : m.vtableSlot = some slot
  · simp [hslot]
  · simp [hslot, lastIn]

theorem lastIn_eq_none_iff {ms : List RealizedMethod} {slot : Nat} :
  lastIn ms slot = none ↔ ∀ m ∈ ms, m.vtableSlot ≠ some slot
  := by
  simp [lastIn]

/-- No method behind the last one has been given the slot. -/
theorem exists_of_lastIn {ms : List RealizedMethod} {slot : Nat} {m : RealizedMethod}
    (h : lastIn ms slot = some m) :
  ∃ before after, ms = before ++ m :: after ∧ m.vtableSlot = some slot
    ∧ ∀ m' ∈ after, m'.vtableSlot ≠ some slot
  := by
  induction ms using List.reverseRecOn with
  | nil => cases h
  | append_singleton ms last ih =>
      rw [lastIn_append] at h
      split at h
      · next hslot =>
        cases h
        exact ⟨ms, [], rfl, hslot, by simp⟩
      · next hslot =>
        obtain ⟨before, after, rfl, hm, hafter⟩ := ih h
        refine ⟨before, after ++ [last], by simp, hm, ?_⟩
        intro m' hm'
        obtain hm' | hm' := List.mem_append.mp hm'
        · apply hafter m' hm'
        · rwa [List.mem_singleton.mp hm']

/-! ## Laying out methods -/

namespace Workspace

variable {w : Workspace} {d : TypeDecl}

/-- What a method becomes at its position behind other methods. -/
structure Places (w : Workspace) (d : TypeDecl) (inherited : VTable) (before : List RealizedMethod)
    (m : MethodDecl) (r : RealizedMethod) : Prop where
  handle : r.handle = d.methodRef before.length
  attributes : r.attributes = m.attributes
  body : m.isAbstract = false → r.body.isSome
  slotted : r.vtableSlot.isSome ↔
    d.handle.kind = .classType ∧ m.attributes.isVirtual = true ∧ m.isStatic = false
  slot : ∀ slot, r.vtableSlot = some slot → w.inheritedSlot? m = some slot
    ∨ w.inheritedSlot? m = none ∧ inherited.size ≤ slot
      ∧ ∀ r' ∈ before, ∀ slot', r'.vtableSlot = some slot' → slot' < slot

/-- What the methods of a type become, and the table that holds them. -/
structure Arranges (w : Workspace) (d : TypeDecl) (inherited : VTable) (ms : List MethodDecl)
    (l : MethodLayout) : Prop where
  length : l.methods.length = ms.length
  places : ∀ i m r, ms[i]? = some m → l.methods[i]? = some r →
    w.Places d inherited (l.methods.take i) m r
  size : inherited.size ≤ l.vtable.size
  bound : ∀ r ∈ l.methods, ∀ slot, r.vtableSlot = some slot → slot < l.vtable.size
  held : ∀ slot, l.vtable.method? slot
    = ((lastIn l.methods slot).map (·.handle)).or (inherited.method? slot)

theorem placeVirtual_cases
    {owner : String} {vtable vtable' : VTable} {handle : MethodRef} {m : MethodDecl} {slot : Nat}
    (h : w.placeVirtual owner vtable handle m = .ok (slot, vtable')) :
  w.inheritedSlot? m = some slot ∨ w.inheritedSlot? m = none ∧ slot = vtable.size
  := by
  rw [placeVirtual] at h
  split at h
  · next hnone =>
    cases h
    exact .inr ⟨hnone, rfl⟩
  · next inherited hinherited =>
    rw [VTable.override] at h
    split at h
    · next hslot =>
      cases h
      exact .inl hinherited
    · cases h

/-- What one more method becomes, and which slot of the table it is put into. -/
theorem layoutMethod_places
    {inherited : VTable} {l l' : MethodLayout} {m : MethodDecl}
    (hsize : inherited.size ≤ l.vtable.size)
    (hbound : ∀ r ∈ l.methods, ∀ slot, r.vtableSlot = some slot → slot < l.vtable.size)
    (hone : w.layoutMethod d l m = .ok l') :
  ∃ r, l'.methods = l.methods ++ [r] ∧ w.Places d inherited l.methods m r
    ∧ (r.vtableSlot = none ∧ l'.vtable = l.vtable
      ∨ ∃ slot, r.vtableSlot = some slot ∧ Puts slot r.handle l.vtable l'.vtable)
  := by
  rw [Workspace.layoutMethod] at hone
  dsimp only at hone
  split at hone
  · cases hone
  next hbody =>
  split at hone
  · cases hone
  have hbody' : m.isAbstract = false → m.body.isSome := by
    intro hconcrete
    simpa [hconcrete, ← Option.isSome_iff_ne_none] using hbody
  split at hone
  · next hvirtual =>
    obtain ⟨⟨slot, vtable⟩, hplace, hone⟩ := exists_of_bind_ok hone
    obtain ⟨hputs, -⟩ := placeVirtual_ok hplace
    simp only [Bool.and_eq_true, beq_iff_eq, Bool.not_eq_true'] at hvirtual
    cases hone
    refine ⟨_, rfl, ⟨rfl, rfl, hbody', ?_, ?_⟩, .inr ⟨slot, rfl, hputs⟩⟩
    · simp [hvirtual]
    · rintro _ ⟨⟩
      obtain hinherited | ⟨hnone, rfl⟩ := placeVirtual_cases hplace
      · left
        apply hinherited
      · right
        exact ⟨hnone, hsize, hbound⟩
  · next hvirtual =>
    simp only [Bool.and_eq_true, beq_iff_eq, Bool.not_eq_true'] at hvirtual
    cases hone
    refine ⟨_, rfl, ⟨rfl, rfl, hbody', ?_, ?_⟩, .inl ⟨rfl, rfl⟩⟩
    · simpa [and_assoc] using hvirtual
    · rintro _ ⟨⟩

/-- One more method. -/
theorem Arranges.layoutMethod
    {inherited : VTable} {ms : List MethodDecl} {l l' : MethodLayout} {m : MethodDecl}
    (h : w.Arranges d inherited ms l) (hone : w.layoutMethod d l m = .ok l') :
  w.Arranges d inherited (ms ++ [m]) l'
  := by
  obtain ⟨r, hmethods, hplaces, hslot⟩ := layoutMethod_places h.size h.bound hone
  have hlast : ∀ slot, lastIn l'.methods slot
      = if r.vtableSlot = some slot then some r else lastIn l.methods slot := by
    intro slot
    rw [hmethods, lastIn_append]
  constructor
  · rw [hmethods, List.length_append, List.length_append, h.length]
    rfl
  · intro i m' r' hm' hr'
    rw [hmethods] at hr' ⊢
    by_cases hi : i < ms.length
    · rw [List.getElem?_append_left hi] at hm'
      rw [List.getElem?_append_left (by rwa [h.length])] at hr'
      rw [List.take_append_of_le_length (by rw [h.length]; apply Nat.le_of_lt hi)]
      apply h.places i m' r' hm' hr'
    · have hlength : i = ms.length := by
        have := (List.getElem?_eq_some_iff.mp hm').1
        simp only [List.length_append, List.length_singleton] at this
        omega
      subst hlength
      rw [List.getElem?_concat_length] at hm'
      rw [← h.length, List.getElem?_concat_length] at hr'
      cases hm'
      cases hr'
      rw [← h.length, List.take_left']
      · apply hplaces
      · rfl
  · obtain ⟨-, hsame⟩ | ⟨slot, -, hputs⟩ := hslot
    · rw [hsame]
      apply h.size
    · apply Nat.le_trans h.size hputs.size
  · intro r' hr' slot' hslot'
    rw [hmethods] at hr'
    obtain ⟨hnone, hsame⟩ | ⟨slot, hslot, hputs⟩ := hslot
    · obtain hr' | hr' := List.mem_append.mp hr'
      · rw [hsame]
        apply h.bound r' hr' slot' hslot'
      · rw [List.mem_singleton.mp hr', hnone] at hslot'
        cases hslot'
    · obtain hr' | hr' := List.mem_append.mp hr'
      · apply Nat.lt_of_lt_of_le (h.bound r' hr' slot' hslot') hputs.size
      · rw [List.mem_singleton.mp hr', hslot] at hslot'
        cases hslot'
        apply hputs.lt_size
  · intro slot'
    rw [hlast]
    obtain ⟨hnone, hsame⟩ | ⟨slot, hslot, hputs⟩ := hslot
    · rw [hsame, hnone, if_neg (by simp)]
      apply h.held
    · rw [hslot]
      by_cases heq : slot' = slot
      · subst heq
        rw [if_pos rfl, hputs.held]
        rfl
      · rw [if_neg (by simpa using Ne.symm heq), hputs.kept slot' heq]
        apply h.held

/-- All methods of a type. -/
theorem arranges_layoutMethods
    {ms : List MethodDecl} {inherited : VTable} {l : MethodLayout}
    (h : ms.foldlM (w.layoutMethod d) ⟨[], inherited, none⟩ = .ok l) :
  w.Arranges d inherited ms l
  := by
  induction ms using List.reverseRecOn generalizing l with
  | nil =>
      cases h
      refine ⟨rfl, ?_, Nat.le_refl _, ?_, ?_⟩
      · rintro i m r ⟨⟩
      · rintro r ⟨⟩
      · intro slot
        simp [lastIn]
  | append_singleton ms m ih =>
      rw [List.foldlM_append] at h
      obtain ⟨l₀, hms, h⟩ := exists_of_bind_ok h
      rw [List.foldlM_cons] at h
      obtain ⟨l₁, hone, h⟩ := exists_of_bind_ok h
      cases h
      apply (ih hms).layoutMethod hone

/-- A method that asks for no slot of its own takes over the slot of the realized method that
it is linked to. -/
theorem inheritedSlot?_eq {m : MethodDecl} (h : m.attributes.newSlot = false) :
  w.inheritedSlot? m = (m.baseSlot.bind (methodIn w.session.types)).bind (·.vtableSlot)
  := by
  rw [inheritedSlot?]
  rw [h, if_neg (by simp)]
  cases m.baseSlot with
  | none => rfl
  | some b =>
      change (w.session.realized? b.owner).bind _ = ((w.session.realized? b.owner).bind _).bind _
      cases w.session.realized? b.owner <;> rfl

end Workspace

/-! ## Bases of types that are added -/

theorem RealizedBase.mem {ts : List RealizedType} {t u : RealizedType} (h : RealizedBase ts t u) :
  u ∈ ts
  := by
  obtain ⟨x, -, hu⟩ := h
  apply List.mem_of_find?_eq_some hu

namespace Tabled

variable {ts new : List RealizedType} {t u c : RealizedType}

theorem base_of_append (h : Tabled ts) (ht : t ∈ ts) (hbase : RealizedBase (ts ++ new) t u) :
  RealizedBase ts t u
  := by
  obtain ⟨x, hx, hu⟩ := hbase
  obtain ⟨above, habove, -⟩ := h.base t ht x hx
  rw [find?_append_of_some habove] at hu
  cases hu
  exact ⟨x, hx, habove⟩

/-- Proper bases. -/
theorem above_of_append
    (h : Tabled ts) (ht : t ∈ ts) (habove : TransGen (RealizedBase (ts ++ new)) t c) :
  TransGen (RealizedBase ts) t c
  := by
  obtain ⟨u, hbase, hinherits⟩ := TransGen.head'_iff.mp habove
  have hbase := h.base_of_append ht hbase
  apply TransGen.head' hbase
  apply h.inherits_of_append hbase.mem hinherits

end Tabled

/-! ## Realized types -/

namespace Project

/-- How the methods of a realized type are arranged, with respect to its base and to the
declarations that the units have. -/
structure Arranged (p : Project) (ts : List RealizedType) (t : RealizedType) : Prop where
  declared : ∀ i r, t.methods[i]? = some r → ∃ m, p.methodDecl? ⟨t.id, i⟩ = some m
    ∧ r.handle = ⟨t.id, i⟩ ∧ r.attributes = m.attributes ∧ m.Proper
    ∧ (m.isAbstract = false → r.body.isSome)
  slotted : ∀ r ∈ t.methods, r.vtableSlot.isSome ↔
    t.handle.kind = .classType ∧ r.attributes.isVirtual = true ∧ r.isStatic = false
  linked : ∀ r ∈ t.methods, ∀ b target slot, p.LinksTo r.handle b →
    (∃ c, TransGen (RealizedBase ts) t c ∧ c.id = b.owner ∧ c.method? b.index = some target) →
    target.vtableSlot = some slot → t.handle.kind = .classType → r.vtableSlot = some slot
  unlinked : ∀ i r slot, t.methods[i]? = some r → (∀ b, ¬ p.LinksTo r.handle b) →
    r.vtableSlot = some slot → (∀ u, RealizedBase ts t u → u.vtable.size ≤ slot)
      ∧ ∀ r' ∈ t.methods.take i, ∀ slot', r'.vtableSlot = some slot' → slot' < slot
  held : ∀ slot r, lastIn t.methods slot = some r → t.vtable.method? slot = some r.handle
  kept : ∀ slot u, lastIn t.methods slot = none → RealizedBase ts t u →
    t.vtable.method? slot = u.vtable.method? slot
  bare : ∀ slot, lastIn t.methods slot = none → t.base = none → t.vtable.method? slot = none

theorem Arranged.append {p : Project} {ts : List RealizedType} {t : RealizedType}
    (h : p.Arranged ts t) (htabled : Tabled ts) (ht : t ∈ ts) (new : List RealizedType) :
  p.Arranged (ts ++ new) t
  := by
  refine ⟨h.declared, h.slotted, ?_, ?_, h.held, ?_, h.bare⟩
  · rintro r hr b target slot hlink ⟨c, habove, hc⟩
    apply h.linked r hr b target slot hlink ⟨c, htabled.above_of_append ht habove, hc⟩
  · intro i r slot hr hnone hslot
    obtain ⟨hbase, hbefore⟩ := h.unlinked i r slot hr hnone hslot
    exact ⟨fun u hu => hbase u (htabled.base_of_append ht hu), hbefore⟩
  · intro slot u hnone hu
    apply h.kept slot u hnone (htabled.base_of_append ht hu)

section

variable {p : Project} {w : Workspace} {t : RealizedType} {d : TypeDecl}
  {base : Option RealizedType} {l : MethodLayout}

/-- The base of a type that is laid out, as the session has it afterwards. -/
theorem realizedBase_of_layout
    (hbase : w.layoutBase d = .ok base) (hid : t.base = base.map (·.id)) {u : RealizedType}
    (hu : RealizedBase (w.session.types ++ [t]) t u) :
  base = some u ∧ u ∈ w.session.types
  := by
  obtain ⟨x, hx, hu⟩ := hu
  rw [hid] at hx
  obtain ⟨u', rfl, rfl⟩ := Option.map_eq_some_iff.mp hx
  have hfound := Workspace.layoutBase_some hbase
  rw [find?_append_of_some hfound] at hu
  cases hu
  exact ⟨rfl, List.mem_of_find?_eq_some hfound⟩

/-- A base method that a method of a type that is laid out is linked to is found in the
session. -/
theorem methodIn_of_above
    (hsettled : w.Settled) (htabled : Tabled w.session.types) (hbase : w.layoutBase d = .ok base)
    (hid : t.base = base.map (·.id)) {b : MethodRef} {target : RealizedMethod}
    (habove : ∃ c, TransGen (RealizedBase (w.session.types ++ [t])) t c ∧ c.id = b.owner
      ∧ c.method? b.index = some target) :
  methodIn w.session.types b = some target
  := by
  obtain ⟨c, habove, hc, htarget⟩ := habove
  obtain ⟨u, hu, hinherits⟩ := TransGen.head'_iff.mp habove
  obtain ⟨-, hmem⟩ := realizedBase_of_layout hbase hid hu
  have hmem := (htabled.size_le hmem (htabled.inherits_of_append hmem hinherits)).1
  have hfound : w.session.types.find? (·.id == c.id) = some c :=
    find?_of_nodup hsettled.distinct hmem
  rw [methodIn]
  rw [← hc, hfound]
  apply htarget

/-- What the declared methods of a type that is laid out become. -/
theorem places_of_layout
    {inherited : VTable} (hd : w.assembly.decl? t.id = some d)
    (hdecl : p.decl? t.id = some d.asRealized) (hregular : d.Regular)
    (h : w.Arranges d inherited d.methods l) (hmethods : t.methods = l.methods)
    {i : Nat} {r : RealizedMethod} (hr : t.methods[i]? = some r) :
  ∃ m, p.methodDecl? ⟨t.id, i⟩ = some m ∧ m.Proper ∧ r.handle = ⟨t.id, i⟩
    ∧ w.Places d inherited (t.methods.take i) m r
  := by
  rw [hmethods] at hr ⊢
  have hi := (List.getElem?_eq_some_iff.mp hr).1
  have hlt : i < d.methods.length := h.length ▸ hi
  have hm := List.getElem?_eq_getElem hlt
  have hplace := h.places i _ r hm hr
  refine ⟨_, ?_, hregular.methods _ (List.mem_of_getElem? hm), ?_, hplace⟩
  · rw [methodDecl?]
    rw [hdecl]
    apply hm
  · rw [hplace.handle, List.length_take, Nat.min_eq_left (Nat.le_of_lt hi),
      TypeDecl.methodRef, Assembly.decl?_id hd]

/-- A type that is laid out.  A method of it links to what its declaration links to. -/
theorem arranged_of_layout
    (hd : w.assembly.decl? t.id = some d) (hdecl : p.decl? t.id = some d.asRealized)
    (hregular : d.Regular) (hsettled : w.Settled) (htabled : Tabled w.session.types)
    (hlayout : w.layoutType t.id = .ok t) :
  p.Arranged (w.session.types ++ [t]) t
  := by
  obtain ⟨d', -, hd', hmirrors, -⟩ := Workspace.layoutType_ok hlayout
  rw [hd] at hd'
  cases hd'
  obtain ⟨d', base, l, hd', hbase, hl, hmethods, hvtable, hid⟩ :=
    Workspace.layoutType_methods hlayout
  rw [hd] at hd'
  cases hd'
  have harranges := Workspace.arranges_layoutMethods hl
  have hplaces := @places_of_layout p w t d l _ hd hdecl hregular harranges hmethods
  have hlinks : ∀ {i : Nat} {m : MethodDecl} {b : MethodRef},
      p.methodDecl? ⟨t.id, i⟩ = some m → (p.LinksTo ⟨t.id, i⟩ b ↔ m.baseSlot = some b) := by
    intro i m b hm
    rw [LinksTo, hm]
    simp
  constructor
  · intro i r hr
    obtain ⟨m, hm, hproper, hhandle, hplace⟩ := hplaces hr
    exact ⟨m, hm, hhandle, hplace.attributes, hproper, hplace.body⟩
  · intro r hr
    obtain ⟨i, hi⟩ := List.getElem?_of_mem hr
    obtain ⟨m, -, -, -, hplace⟩ := hplaces hi
    rw [hplace.slotted, hmirrors.handle, RealizedMethod.isStatic, hplace.attributes,
      MethodDecl.isStatic]
  · intro r hr b target slot hlink habove hslot hclass
    obtain ⟨i, hi⟩ := List.getElem?_of_mem hr
    obtain ⟨m, hm, hproper, hhandle, hplace⟩ := hplaces hi
    rw [hhandle, hlinks hm] at hlink
    obtain ⟨hvirtual, hnewSlot⟩ := hproper.linked (by rw [hlink]; rfl)
    have hstatic := hproper.isVirtual hvirtual
    have hinherited : w.inheritedSlot? m = some slot := by
      rw [Workspace.inheritedSlot?_eq hnewSlot, hlink, Option.bind_some,
        methodIn_of_above hsettled htabled hbase hid habove, Option.bind_some, hslot]
    rw [hmirrors.handle] at hclass
    obtain ⟨slot', hslot'⟩ :=
      Option.isSome_iff_exists.mp (hplace.slotted.mpr ⟨hclass, hvirtual, hstatic⟩)
    obtain hsame | ⟨hnone, -⟩ := hplace.slot slot' hslot'
    · rw [hinherited] at hsame
      rw [hslot', hsame]
    · rw [hinherited] at hnone
      cases hnone
  · intro i r slot hr hnone hslot
    obtain ⟨m, hm, -, hhandle, hplace⟩ := hplaces hr
    have hunlinked : m.baseSlot = none := by
      cases hbaseSlot : m.baseSlot with
      | none => rfl
      | some b => cases hnone b (hhandle ▸ (hlinks hm).mpr hbaseSlot)
    obtain hinherited | ⟨-, hsize, hbefore⟩ := hplace.slot slot hslot
    · obtain ⟨b, hb⟩ := Workspace.exists_baseSlot hinherited
      rw [hunlinked] at hb
      cases hb
    · refine ⟨fun u hu => ?_, hbefore⟩
      obtain ⟨rfl, -⟩ := realizedBase_of_layout hbase hid hu
      apply hsize
  · intro slot r hr
    rw [hvtable, harranges.held slot, ← hmethods, hr]
    rfl
  · intro slot u hnone hu
    obtain ⟨rfl, -⟩ := realizedBase_of_layout hbase hid hu
    rw [hvtable, harranges.held slot, ← hmethods, hnone]
    rfl
  · intro slot hnone hbare
    rw [hid] at hbare
    rw [hvtable, harranges.held slot, ← hmethods, hnone, Option.map_eq_none_iff.mp hbare]
    rfl

end

/-- The methods of all realized types are arranged. -/
theorem Sound.arranged
    {p : Project} (h : p.Sound) {verify : Bool} {ts : List RealizedType}
    (hlayered : Layered verify p.decl? ts) :
  ∀ t ∈ ts, p.Arranged ts t
  := by
  induction hlayered with
  | nil =>
      intro t ht
      cases ht
  | @snoc w t d hlayered hsettled hverify hd hbuilding hdecl hkept hlayout ih =>
      have htabled := hlayered.tabled
      have hregular : d.Regular := by
        obtain ⟨i, a, ha, hd'⟩ := exists_of_decl? hdecl
        obtain ⟨hbase, hinterfaces, hattributes, hmethods⟩ := h.regular ha _ _ hd'
        exact ⟨hbase, hinterfaces, hattributes, hmethods⟩
      intro t' ht'
      obtain ht' | ht' := List.mem_append.mp ht'
      · apply (ih t' ht').append htabled ht'
      · obtain rfl := List.mem_singleton.mp ht'
        apply arranged_of_layout hd hdecl hregular hsettled htabled hlayout

end Project

end ManagedCode
