import ManagedCode.Proofs.Assembly.Bases

/-!
# Tables of realized types

A realized type has the slots of its base and slots of its own methods.  A method takes
over the slot of the base method that it is linked to, and when that method belongs to a
base class, the slot is one of the table that its type has inherited.
-/

namespace ManagedCode

open Relation

variable {ρ : Type}

/-! ## Tables of realized types -/

/-- A realized type has another one as its base. -/
def RealizedBase (ts : List RealizedType) (t b : RealizedType) : Prop :=
  ∃ x, t.base = some x ∧ ts.find? (·.id == x) = some b

/-- A realized type is another one, or has it as one of its bases. -/
def Inherits (ts : List RealizedType) : RealizedType → RealizedType → Prop :=
  ReflTransGen (RealizedBase ts)

theorem find?_append_of_some
    {ts new : List RealizedType} {x : TypeId} {t : RealizedType}
    (h : ts.find? (·.id == x) = some t) :
  (ts ++ new).find? (·.id == x) = some t
  := by
  rw [List.find?_append, h, Option.some_or]

theorem Inherits.append {ts : List RealizedType} {t c : RealizedType} (h : Inherits ts t c)
    (new : List RealizedType) :
  Inherits (ts ++ new) t c
  := by
  apply ReflTransGen.mono _ t c h
  rintro a b ⟨x, hx, hb⟩
  exact ⟨x, hx, find?_append_of_some hb⟩

/-- Each type has the slots of its own methods, and the slots of its base. -/
structure Tabled (ts : List RealizedType) : Prop where
  own : ∀ t ∈ ts, ∀ method ∈ t.methods, ∀ slot, method.vtableSlot = some slot →
    slot < t.vtable.size
  base : ∀ t ∈ ts, ∀ b, t.base = some b →
    ∃ above, ts.find? (·.id == b) = some above ∧ above.vtable.size ≤ t.vtable.size

namespace Workspace

variable {w : Workspace} {d : TypeDecl}

/-- What putting a method into a slot does to a table. -/
structure Puts (slot : Nat) (handle : MethodRef) (vtable vtable' : VTable) : Prop where
  held : vtable'.method? slot = some handle
  kept : ∀ other, other ≠ slot → vtable'.method? other = vtable.method? other
  size : vtable.size ≤ vtable'.size

theorem Puts.lt_size
    {slot : Nat} {handle : MethodRef} {vtable vtable' : VTable} (h : Puts slot handle vtable vtable') :
  slot < vtable'.size
  :=
  (List.getElem?_eq_some_iff.mp h.held).1

theorem placeVirtual_ok
    {owner : String} {vtable vtable' : VTable} {handle : MethodRef} {m : MethodDecl} {slot : Nat}
    (h : w.placeVirtual owner vtable handle m = .ok (slot, vtable')) :
  Puts slot handle vtable vtable'
    ∧ (slot = vtable.size ∨ w.inheritedSlot? m = some slot ∧ slot < vtable.size)
  := by
  rw [placeVirtual] at h
  split at h
  · cases h
    refine ⟨⟨by simp [VTable.method?], ?_, by simp [VTable.size]⟩, .inl rfl⟩
    intro other hne
    change (vtable.methods ++ [handle])[other]? = vtable.methods[other]?
    rw [List.getElem?_append]
    split
    · rfl
    · next hle =>
      have hlt : vtable.methods.length < other := by omega
      rw [List.getElem?_eq_none (by simp; omega), List.getElem?_eq_none (Nat.le_of_lt hlt)]
  · next inherited hinherited =>
    rw [VTable.override] at h
    split at h
    · next hslot =>
      split at hslot
      · next hlt =>
        cases hslot
        cases h
        refine ⟨⟨by simp [VTable.method?, hlt], ?_, by simp [VTable.size]⟩,
          .inr ⟨hinherited, hlt⟩⟩
        intro other hne
        change (vtable.methods.set slot handle)[other]? = vtable.methods[other]?
        rw [List.getElem?_set_ne (Ne.symm hne)]
      · cases hslot
    · cases h

/-- A method gets no slot, or is put into one. -/
theorem layoutMethod_slot
    {l l' : MethodLayout} {m : MethodDecl} (h : w.layoutMethod d l m = .ok l') :
  ∃ method : RealizedMethod, l'.methods = l.methods ++ [method]
    ∧ method.returnType = m.returnType
    ∧ (method.vtableSlot = none ∧ l'.vtable = l.vtable
      ∨ ∃ slot, method.vtableSlot = some slot
          ∧ Puts slot (d.methodRef l.methods.length) l.vtable l'.vtable
          ∧ (slot = l.vtable.size ∨ w.inheritedSlot? m = some slot ∧ slot < l.vtable.size))
  := by
  rw [layoutMethod] at h
  dsimp only at h
  split at h
  · cases h
  split at h
  · cases h
  split at h
  · obtain ⟨⟨slot, vtable⟩, hplace, h⟩ := exists_of_bind_ok h
    obtain ⟨hputs, hslot⟩ := placeVirtual_ok hplace
    cases h
    exact ⟨_, rfl, rfl, .inr ⟨slot, rfl, hputs, hslot⟩⟩
  · cases h
    exact ⟨_, rfl, rfl, .inl ⟨rfl, rfl⟩⟩

theorem layoutMethods_size
    {ms : List MethodDecl} {l l' : MethodLayout} (h : ms.foldlM (w.layoutMethod d) l = .ok l')
    (hl : ∀ method ∈ l.methods, ∀ slot, method.vtableSlot = some slot → slot < l.vtable.size) :
  l.vtable.size ≤ l'.vtable.size
    ∧ ∀ method ∈ l'.methods, ∀ slot, method.vtableSlot = some slot → slot < l'.vtable.size
  := by
  induction ms generalizing l with
  | nil =>
      cases h
      exact ⟨Nat.le_refl _, hl⟩
  | cons m ms ih =>
      rw [List.foldlM_cons] at h
      obtain ⟨l₁, hone, hrest⟩ := exists_of_bind_ok h
      obtain ⟨method, hmethods, -, hmethod⟩ := layoutMethod_slot hone
      have hsize : l.vtable.size ≤ l₁.vtable.size
          ∧ ∀ slot, method.vtableSlot = some slot → slot < l₁.vtable.size := by
        obtain ⟨hnone, hsame⟩ | ⟨slot, hslot, hputs, -⟩ := hmethod
        · simp [hnone, hsame]
        · rw [hslot]
          refine ⟨hputs.size, ?_⟩
          rintro _ ⟨⟩
          apply hputs.lt_size
      obtain ⟨hrestsize, hall⟩ := ih hrest (by
        intro method' hmem slot hslot
        rw [hmethods] at hmem
        obtain hmem | hmem := List.mem_append.mp hmem
        · apply Nat.lt_of_lt_of_le (hl method' hmem slot hslot) hsize.1
        · obtain rfl := List.mem_singleton.mp hmem
          apply hsize.2 slot hslot)
      exact ⟨Nat.le_trans hsize.1 hrestsize, hall⟩

/-- What a realized type gets from laying out its methods behind its base. -/
theorem layoutType_methods {id : TypeId} {t : RealizedType} (h : w.layoutType id = .ok t) :
  ∃ d base l, w.assembly.decl? id = some d ∧ w.layoutBase d = .ok base
    ∧ d.methods.foldlM (w.layoutMethod d) ⟨[], (base.map (·.vtable)).getD {}, none⟩ = .ok l
    ∧ t.methods = l.methods ∧ t.vtable = l.vtable ∧ t.base = base.map (·.id)
  := by
  rw [layoutType] at h
  obtain ⟨d, hd, h⟩ := exists_of_bind_ok h
  obtain ⟨base, hbase, h⟩ := exists_of_bind_ok h
  obtain ⟨methods, hmethods, h⟩ := exists_of_bind_ok h
  obtain ⟨⟨all, map⟩, -, h⟩ := exists_of_bind_ok h
  obtain ⟨_, -, h⟩ := exists_of_bind_ok h
  cases h
  exact ⟨d, base, methods, Assembly.decl_ok hd, hbase, hmethods, rfl, rfl, rfl⟩

/-- The base of a type that is laid out is a realized type. -/
theorem layoutBase_some {inherited : RealizedType} (h : w.layoutBase d = .ok (some inherited)) :
  w.session.realized? inherited.id = some inherited
  := by
  obtain ⟨hrealized, hid⟩ := layoutBase_ok h
  rw [← hid, Option.map_some, Option.bind_some] at hrealized
  exact hrealized.symm

theorem layoutType_tabled {id : TypeId} {t : RealizedType} (h : w.layoutType id = .ok t) :
  (∀ method ∈ t.methods, ∀ slot, method.vtableSlot = some slot → slot < t.vtable.size)
    ∧ ∀ b, t.base = some b →
      ∃ above, w.session.realized? b = some above ∧ above.vtable.size ≤ t.vtable.size
  := by
  obtain ⟨d, base, l, -, hbase, hl, hmethods, hvtable, hid⟩ := layoutType_methods h
  obtain ⟨hsize, hslots⟩ := layoutMethods_size hl (by simp)
  rw [hmethods, hvtable, hid]
  refine ⟨hslots, fun b hb => ?_⟩
  obtain ⟨above, rfl, rfl⟩ := Option.map_eq_some_iff.mp hb
  exact ⟨above, layoutBase_some hbase, hsize⟩

end Workspace

/-- Laying out one more type. -/
theorem Tabled.snoc
    {w : Workspace} {id : TypeId} {t : RealizedType} (h : Tabled w.session.types)
    (hlayout : w.layoutType id = .ok t) :
  Tabled (w.session.types ++ [t])
  := by
  obtain ⟨hown, hbase⟩ := Workspace.layoutType_tabled hlayout
  constructor
  · intro t' ht'
    obtain ht' | ht' := List.mem_append.mp ht'
    · apply h.own t' ht'
    · obtain rfl := List.mem_singleton.mp ht'
      apply hown
  · intro t' ht' b hb
    obtain ⟨above, habove, hsize⟩ : ∃ above, w.session.realized? b = some above
        ∧ above.vtable.size ≤ t'.vtable.size := by
      obtain ht' | ht' := List.mem_append.mp ht'
      · apply h.base t' ht' b hb
      · obtain rfl := List.mem_singleton.mp ht'
        apply hbase b hb
    refine ⟨above, ?_, hsize⟩
    apply find?_append_of_some habove

/-- All types of a session have the slots that they need. -/
theorem Project.tabled_after (verify : Bool) (history : List (Event ρ)) :
  Tabled ((empty verify).after history).session.types
  := by
  apply realized_induction
  · exact ⟨by simp, by simp⟩
  · intro w new t _ _ _ hlayout htabled
    apply htabled.snoc hlayout

theorem Workspace.Realizes.tabled
    {w : Workspace} {new : List RealizedType} (h : w.Realizes new)
    (htabled : Tabled w.session.types) :
  Tabled (w.realizing new).session.types
  := by
  induction h with
  | nil =>
      change Tabled (w.session.types ++ [])
      rwa [List.append_nil]
  | snoc h hd hbuilding hlayout hfree ih =>
      rw [realizing_append]
      apply ih.snoc hlayout

/-- A type has the slots of its bases. -/
theorem Tabled.size_le
    {ts : List RealizedType} (h : Tabled ts) {t c : RealizedType} (ht : t ∈ ts)
    (hinherits : Inherits ts t c) :
  c ∈ ts ∧ c.vtable.size ≤ t.vtable.size
  := by
  induction hinherits with
  | refl => exact ⟨ht, Nat.le_refl _⟩
  | tail _ hstep ih =>
      obtain ⟨hmem, hsize⟩ := ih
      obtain ⟨x, hx, hb⟩ := hstep
      obtain ⟨above, habove, hless⟩ := h.base _ hmem x hx
      rw [hb] at habove
      cases habove
      exact ⟨List.mem_of_find?_eq_some hb, Nat.le_trans hless hsize⟩

/-- Types that are added are no bases of the types that there are. -/
theorem Tabled.inherits_of_append
    {ts new : List RealizedType} (h : Tabled ts) {t c : RealizedType} (ht : t ∈ ts)
    (hinherits : Inherits (ts ++ new) t c) :
  Inherits ts t c
  := by
  induction hinherits with
  | refl => exact .refl
  | tail _ hstep ih =>
      obtain ⟨hmem, -⟩ := h.size_le ht ih
      obtain ⟨x, hx, hb⟩ := hstep
      obtain ⟨above, habove, -⟩ := h.base _ hmem x hx
      rw [find?_append_of_some habove] at hb
      cases hb
      apply ih.tail ⟨x, hx, habove⟩

/-! ## Slots of base classes -/

namespace Workspace

variable {w : Workspace}

/-- A unit sees a realized type with the base that it was realized with. -/
theorem Settled.base_of_realized
    (h : w.Settled) {x y : TypeId} {t : RealizedType} (ht : w.session.realized? x = some t)
    (hbase : w.HasBase x y) :
  t.base = some y
  := by
  obtain ⟨s, hs, hy⟩ := hbase
  cases hd : w.assembly.decl? x with
  | none =>
      rw [view?_of_no_decl hd, ht] at hs
      cases hs
      apply hy
  | some d =>
      rw [view?_of_decl hd] at hs
      cases hs
      cases hstate : d.state with
      | building =>
          have hx : t.id = x := by simpa using List.find?_some ht
          cases h.not_realized hd hstate t (List.mem_of_find?_eq_some ht) hx
      | realized =>
          obtain ⟨t', ht', hmirrors⟩ := h.mirrored hd hstate
          rw [ht] at ht'
          cases ht'
          rw [hmirrors.base]
          apply hy

/-- The types above a realized one are realized, and it inherits from them. -/
theorem Settled.inherits
    (h : w.Settled) (htabled : Tabled w.session.types) {x y : TypeId} {t : RealizedType}
    (ht : w.session.realized? x = some t) (hpath : ReflTransGen w.HasBase x y) :
  ∃ above, w.session.realized? y = some above ∧ Inherits w.session.types t above
  := by
  induction hpath with
  | refl => exact ⟨t, ht, .refl⟩
  | tail _ hstep ih =>
      obtain ⟨t', ht', hinherits⟩ := ih
      have hbase := h.base_of_realized ht' hstep
      obtain ⟨above, habove, -⟩ := htabled.base t' (List.mem_of_find?_eq_some ht') _ hbase
      exact ⟨above, habove, hinherits.tail ⟨_, hbase, habove⟩⟩

/-- The bases of a type that is laid out are realized: it has one of them as its base, and
that one inherits from the others. -/
theorem Settled.inherits_of_below
    (h : w.Settled) (htabled : Tabled w.session.types) {c b : TypeId} {d : TypeDecl}
    {base : Option RealizedType} (hd : w.assembly.decl? c = some d)
    (hbase : w.layoutBase d = .ok base) (hbelow : w.Below c b) :
  ∃ inherited above, base = some inherited ∧ w.session.realized? b = some above
    ∧ inherited ∈ w.session.types ∧ Inherits w.session.types inherited above
  := by
  obtain ⟨first, ⟨s, hs, hfirst⟩, hpath⟩ := TransGen.head'_iff.mp hbelow
  rw [view?_of_decl hd] at hs
  cases hs
  obtain ⟨hrealized, hid⟩ := layoutBase_ok hbase
  change d.baseId? = some first at hfirst
  rw [hfirst] at hrealized hid
  obtain ⟨inherited, rfl, -⟩ := Option.map_eq_some_iff.mp hid
  obtain ⟨above, habove, hinherits⟩ := h.inherits htabled hrealized.symm hpath
  exact ⟨inherited, above, rfl, habove, List.mem_of_find?_eq_some hrealized.symm, hinherits⟩

/-- Only a method with a link takes over a slot. -/
theorem exists_baseSlot {m : MethodDecl} {slot : Nat} (h : w.inheritedSlot? m = some slot) :
  ∃ b, m.baseSlot = some b
  := by
  rw [inheritedSlot?] at h
  split at h
  · cases h
  · obtain ⟨b, hb, -⟩ := Option.bind_eq_some_iff.mp h
    exact ⟨b, hb⟩

/-- A method that is linked to a method of a base class takes over the slot of that method,
and the inherited table has the slot. -/
theorem Settled.inheritedSlot_linked
    (h : w.Settled) (htabled : Tabled w.session.types) {c : TypeId} {d : TypeDecl}
    {m : MethodDecl} {b : MethodRef} {base : Option RealizedType} {slot : Nat}
    (hd : w.assembly.decl? c = some d) (hbase : w.layoutBase d = .ok base)
    (hlink : m.baseSlot = some b) (hbelow : w.Below c b.owner)
    (hslot : w.inheritedSlot? m = some slot) :
  ∃ inherited above method, base = some inherited ∧ w.session.realized? b.owner = some above
    ∧ Inherits w.session.types inherited above ∧ above.method? b.index = some method
    ∧ method.vtableSlot = some slot ∧ slot < inherited.vtable.size
  := by
  rw [inheritedSlot?] at hslot
  split at hslot
  · cases hslot
  obtain ⟨b', hb', hslot⟩ := Option.bind_eq_some_iff.mp hslot
  rw [hlink] at hb'
  cases hb'
  obtain ⟨above, habove, hslot⟩ := Option.bind_eq_some_iff.mp hslot
  obtain ⟨method, hmethod, hslot⟩ := Option.bind_eq_some_iff.mp hslot
  obtain ⟨inherited, above', rfl, habove', hmem, hinherits⟩ :=
    h.inherits_of_below htabled hd hbase hbelow
  rw [habove] at habove'
  cases habove'
  refine ⟨inherited, above, method, rfl, habove, hinherits, hmethod, hslot, ?_⟩
  apply Nat.lt_of_lt_of_le _ (htabled.size_le hmem hinherits).2
  apply htabled.own above (List.mem_of_find?_eq_some habove) method _ slot hslot
  apply List.mem_of_getElem? hmethod

end Workspace

end ManagedCode
