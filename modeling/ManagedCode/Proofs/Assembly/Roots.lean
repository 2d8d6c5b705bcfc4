import ManagedCode.Proofs.Assembly.Arrangement

/-!
# Roots and slots

The root of a method is where its links end.  When all links of the realized types lead to
methods of classes among their bases, methods of one line of bases have the same slot exactly
if they have the same root (`Project.slot_iff_root`), and the table of a type holds in a slot
the method of that root in the most derived class that has one, the last declared
(`Project.chosen_of_holds`).
-/

namespace ManagedCode

open Relation

/-! ## Types in the order in which they were realized -/

namespace Layered

variable {verify : Bool} {decls : TypeId → Option TypeDecl} {ts : List RealizedType}
  {t u c : RealizedType} {k : Nat}

/-- A base has been realized before. -/
theorem earlier (h : Layered verify decls ts) (ht : ts[k]? = some t) (hbase : RealizedBase ts t u) :
  ∃ j < k, ts[j]? = some u
  := by
  induction h with
  | nil => cases ht
  | @snoc w t' d h hsettled hverify hd hbuilding hdecl hkept hlayout ih =>
      by_cases hk : k < w.session.types.length
      · rw [List.getElem?_append_left hk] at ht
        obtain ⟨j, hj, hu⟩ :=
          ih ht (h.tabled.base_of_append (List.mem_of_getElem? ht) hbase)
        exact ⟨j, hj, by rw [List.getElem?_append_left (Nat.lt_trans hj hk), hu]⟩
      · have hlength : k = w.session.types.length := by
          have := (List.getElem?_eq_some_iff.mp ht).1
          simp only [List.length_append, List.length_singleton] at this
          omega
        subst hlength
        rw [List.getElem?_concat_length] at ht
        cases ht
        obtain ⟨d', base, l, -, hlaid, -, -, -, hid⟩ := Workspace.layoutType_methods hlayout
        obtain ⟨-, hmem⟩ := Project.realizedBase_of_layout hlaid hid hbase
        obtain ⟨j, hj⟩ := List.getElem?_of_mem hmem
        have hlt := (List.getElem?_eq_some_iff.mp hj).1
        exact ⟨j, hlt, by rw [List.getElem?_append_left hlt, hj]⟩

/-- So have all further bases. -/
theorem earlier_of_above
    (h : Layered verify decls ts) (ht : ts[k]? = some t) (habove : TransGen (RealizedBase ts) t c) :
  ∃ j < k, ts[j]? = some c
  := by
  induction habove with
  | single hbase => apply h.earlier ht hbase
  | tail _ hbase ih =>
      obtain ⟨j, hj, hc⟩ := ih
      obtain ⟨j', hj', hu⟩ := h.earlier hc hbase
      exact ⟨j', Nat.lt_trans hj' hj, hu⟩

end Layered

theorem RealizedBase.unique
    {ts : List RealizedType} {t u u' : RealizedType} (h : RealizedBase ts t u)
    (h' : RealizedBase ts t u') :
  u = u'
  := by
  obtain ⟨x, hx, hu⟩ := h
  obtain ⟨x', hx', hu'⟩ := h'
  rw [hx] at hx'
  cases hx'
  rw [hu] at hu'
  cases hu'
  rfl

namespace Project

variable {p : Project} {m b root root' : MethodRef}

/-! ## Roots -/

/-- The root of a method is where its links end. -/
structure Root (p : Project) (m root : MethodRef) : Prop where
  path : ReflTransGen p.LinksTo m root
  last : ∀ b, ¬ p.LinksTo root b

theorem LinksTo.unique {b' : MethodRef} (h : p.LinksTo m b) (h' : p.LinksTo m b') : b = b' := by
  obtain ⟨method, hmethod, hb⟩ := h
  obtain ⟨method', hmethod', hb'⟩ := h'
  rw [hmethod] at hmethod'
  cases hmethod'
  rw [hb] at hb'
  cases hb'
  rfl

theorem Root.of_unlinked (h : ∀ b, ¬ p.LinksTo m b) : p.Root m m :=
  ⟨.refl, h⟩

theorem Root.of_link (hlink : p.LinksTo m b) (h : p.Root b root) : p.Root m root :=
  ⟨.head hlink h.path, h.last⟩

/-- A method has one root. -/
theorem Root.unique (h : p.Root m root) (h' : p.Root m root') : root = root' := by
  obtain ⟨hpath, hlast⟩ := h
  induction hpath using ReflTransGen.head_induction_on with
  | refl =>
      obtain heq | ⟨b, hlink, -⟩ := h'.path.cases_head
      · apply heq
      · cases hlast b hlink
  | head hlink _ ih =>
      apply ih
      refine ⟨?_, h'.last⟩
      obtain rfl | ⟨b, hlink', hpath⟩ := h'.path.cases_head
      · cases h'.last _ hlink
      · rwa [hlink.unique hlink']

/-! ## Methods of one line of bases -/

/-- All links of the realized types lead to methods of their bases. -/
def LinksRise (p : Project) (ts : List RealizedType) : Prop :=
  ∀ t ∈ ts, ∀ i b, p.LinksTo ⟨t.id, i⟩ b → ∃ c target, TransGen (RealizedBase ts) t c
    ∧ c.id = b.owner ∧ c.method? b.index = some target

/-- All methods that methods of the realized types are linked to are methods of classes. -/
def LinksToClasses (p : Project) (ts : List RealizedType) : Prop :=
  ∀ t ∈ ts, ∀ i b, p.LinksTo ⟨t.id, i⟩ b → ∀ c ∈ ts, c.id = b.owner →
    c.handle.kind = .classType

/-- Realized types of which all links lead to methods of classes among their bases. -/
structure Linear (p : Project) (ts : List RealizedType) : Prop where
  layered : Layered p.session.verifyImplementations p.decl? ts
  arranged : ∀ t ∈ ts, p.Arranged ts t
  anchored : p.Anchored
  based : ∀ t ∈ ts, t.base.isSome → t.handle.kind = .classType
  rise : p.LinksRise ts
  classes : p.LinksToClasses ts

section

variable {ts : List RealizedType} {t u c c' : RealizedType} {slot : Nat}
  {r r' : RealizedMethod}

/-- Only a class has a base. -/
theorem Sound.class_of_base
    (h : p.Sound) {verify : Bool} (hlayered : Layered verify p.decl? ts) (ht : t ∈ ts)
    (hbase : t.base.isSome) :
  t.handle.kind = .classType
  := by
  obtain ⟨d, hd, -, hmirrors, -⟩ := hlayered.mirrors ht
  obtain ⟨i, a, ha, hd⟩ := exists_of_decl? hd
  rw [hmirrors.base, TypeDecl.baseId?] at hbase
  obtain ⟨base, hbase⟩ := Option.isSome_iff_exists.mp (Option.isSome_of_isSome_bind hbase)
  rw [hmirrors.handle]
  apply ((h.regular ha _ d hd).base base hbase).1

theorem Arranged.handle_eq {i : Nat} (h : p.Arranged ts t) (hr : t.methods[i]? = some r) :
  r.handle = ⟨t.id, i⟩
  := by
  obtain ⟨m, -, hhandle, -⟩ := h.declared i r hr
  apply hhandle

/-- A method of a realized type is found under its handle. -/
theorem Arranged.methodIn_handle
    (h : p.Arranged ts t) {verify : Bool} (hlayered : Layered verify p.decl? ts) (ht : t ∈ ts)
    (hr : r ∈ t.methods) :
  methodIn ts r.handle = some r
  := by
  obtain ⟨i, hi⟩ := List.getElem?_of_mem hr
  rw [methodIn]
  rw [h.handle_eq hi, hlayered.find ht]
  apply hi

/-- A method that another one is linked to has a slot. -/
theorem exists_slot_of_link
    (hanchored : p.Anchored) (harranged : p.Arranged ts c) (hlink : p.LinksTo m b)
    (hc : c.id = b.owner) (hr : c.method? b.index = some r) (hclass : c.handle.kind = .classType) :
  ∃ slot, r.vtableSlot = some slot
  := by
  apply Option.isSome_iff_exists.mp
  rw [harranged.slotted r (List.mem_of_getElem? hr)]
  obtain ⟨method, hmethod, -, hattributes, -⟩ := harranged.declared b.index r hr
  obtain ⟨method', hmethod', hvirtual, hstatic⟩ := hanchored m b hlink
  rw [hc, hmethod'] at hmethod
  cases hmethod
  refine ⟨hclass, ?_, ?_⟩
  · rw [hattributes, hvirtual]
  · rw [RealizedMethod.isStatic, hattributes]
    apply hstatic

/-- The root of a method with a slot is a method of the type or of one of its bases, with the
same slot. -/
theorem exists_root
    (h : p.Linear ts) {k : Nat} (ht : ts[k]? = some t) (hr : r ∈ t.methods) (hslot : r.vtableSlot = some slot) :
  ∃ c root, Inherits ts t c ∧ root ∈ c.methods ∧ root.vtableSlot = some slot
    ∧ p.Root r.handle root.handle
  := by
  induction k using Nat.strongRecOn generalizing t r with
  | ind k ih =>
      have hmem := List.mem_of_getElem? ht
      have hown := h.arranged t hmem
      by_cases hlinked : ∃ b, p.LinksTo r.handle b
      · obtain ⟨b, hlink⟩ := hlinked
        obtain ⟨i, hi⟩ := List.getElem?_of_mem hr
        have hlink' := hlink
        rw [hown.handle_eq hi] at hlink'
        obtain ⟨c, target, habove, hc, htarget⟩ := h.rise t hmem i b hlink'
        obtain ⟨j, hj, hcj⟩ := h.layered.earlier_of_above ht habove
        have hcmem := List.mem_of_getElem? hcj
        have hclass := h.classes t hmem i b hlink' c hcmem hc
        obtain ⟨slot', hslot'⟩ :=
          exists_slot_of_link h.anchored (h.arranged c hcmem) hlink hc htarget hclass
        have hclass' := ((hown.slotted r hr).mp (by rw [hslot]; rfl)).1
        have hsame := hown.linked r hr b target slot' hlink ⟨c, habove, hc, htarget⟩ hslot' hclass'
        rw [hslot] at hsame
        cases hsame
        obtain ⟨c', root, hinherits, hroot, hrootslot, hpath⟩ :=
          ih j hj hcj (List.mem_of_getElem? htarget) hslot'
        refine ⟨c', root, habove.to_reflTransGen.trans hinherits, hroot, hrootslot, ?_⟩
        apply Root.of_link hlink
        rwa [(h.arranged c hcmem).handle_eq htarget, hc] at hpath
      · exact ⟨t, r, .refl, hr, hslot, .of_unlinked (by simpa using hlinked)⟩

/-- Two methods of a type that are linked to nothing have different slots. -/
theorem Arranged.eq_of_unlinked
    (h : p.Arranged ts t) (hr : r ∈ t.methods) (hr' : r' ∈ t.methods)
    (hunlinked : ∀ b, ¬ p.LinksTo r.handle b) (hunlinked' : ∀ b, ¬ p.LinksTo r'.handle b)
    (hslot : r.vtableSlot = some slot) (hslot' : r'.vtableSlot = some slot) :
  r = r'
  := by
  obtain ⟨i, hi⟩ := List.getElem?_of_mem hr
  obtain ⟨j, hj⟩ := List.getElem?_of_mem hr'
  have hbefore : ∀ {i j r r'}, t.methods[i]? = some r → t.methods[j]? = some r' → i < j →
      r ∈ t.methods.take j := by
    intro i j r r' hi hj hij
    apply List.mem_of_getElem?
    rw [List.getElem?_take_of_lt hij, hi]
  obtain hij | rfl | hij := Nat.lt_trichotomy i j
  · have := (h.unlinked j r' slot hj hunlinked' hslot').2 r (hbefore hi hj hij) slot hslot
    cases Nat.lt_irrefl _ this
  · rw [hi] at hj
    cases hj
    rfl
  · have := (h.unlinked i r slot hi hunlinked hslot).2 r' (hbefore hj hi hij) slot hslot'
    cases Nat.lt_irrefl _ this

/-- A method that is linked to nothing has a slot behind those of the bases of its type. -/
theorem not_shared_with_base
    (htabled : Tabled ts) (harranged : p.Arranged ts t) (hr : r ∈ t.methods)
    (hunlinked : ∀ b, ¬ p.LinksTo r.handle b) (hslot : r.vtableSlot = some slot)
    (hbase : RealizedBase ts t u) (hinherits : Inherits ts u c) (hr' : r' ∈ c.methods) :
  r'.vtableSlot ≠ some slot
  := by
  intro hslot'
  obtain ⟨i, hi⟩ := List.getElem?_of_mem hr
  have hle := (harranged.unlinked i r slot hi hunlinked hslot).1 u hbase
  obtain ⟨hc, hsize⟩ := htabled.size_le hbase.mem hinherits
  have hlt := htabled.own c hc r' hr' slot hslot'
  omega

/-- Methods of one line of bases that are linked to nothing have different slots. -/
theorem eq_of_unlinked
    (h : p.Linear ts) {k : Nat} (ht : ts[k]? = some t) (hc : Inherits ts t c) (hc' : Inherits ts t c')
    (hr : r ∈ c.methods) (hr' : r' ∈ c'.methods) (hunlinked : ∀ b, ¬ p.LinksTo r.handle b)
    (hunlinked' : ∀ b, ¬ p.LinksTo r'.handle b) (hslot : r.vtableSlot = some slot)
    (hslot' : r'.vtableSlot = some slot) :
  r = r'
  := by
  induction k using Nat.strongRecOn generalizing t with
  | ind k ih =>
      have hmem := List.mem_of_getElem? ht
      have hown := h.arranged t hmem
      have htabled := h.layered.tabled
      obtain rfl | ⟨u, hbase, hu⟩ := hc.cases_head
      · obtain rfl | ⟨u', hbase', hu'⟩ := hc'.cases_head
        · apply hown.eq_of_unlinked hr hr' hunlinked hunlinked' hslot hslot'
        · cases not_shared_with_base htabled hown hr hunlinked hslot hbase' hu' hr' hslot'
      · obtain rfl | ⟨u', hbase', hu'⟩ := hc'.cases_head
        · cases not_shared_with_base htabled hown hr' hunlinked' hslot' hbase hu hr hslot
        · obtain rfl := hbase.unique hbase'
          obtain ⟨j, hj, huj⟩ := h.layered.earlier ht hbase
          apply ih j hj huj hu hu'

/-- A method without a slot is linked to nothing. -/
theorem Linear.unlinked_of_no_slot
    (h : p.Linear ts) (ht : t ∈ ts) (hr : r ∈ t.methods) (hslot : r.vtableSlot = none) :
  ∀ b, ¬ p.LinksTo r.handle b
  := by
  intro b hlink
  obtain ⟨i, hi⟩ := List.getElem?_of_mem hr
  have hown := h.arranged t ht
  obtain ⟨m, hm, hhandle, hattributes, hproper, -⟩ := hown.declared i r hi
  rw [hhandle] at hlink
  obtain ⟨c, target, habove, -⟩ := h.rise t ht i b hlink
  obtain ⟨u, ⟨x, hx, -⟩, -⟩ := TransGen.head'_iff.mp habove
  obtain ⟨method, hmethod, hbase⟩ := hlink
  rw [hm] at hmethod
  cases hmethod
  obtain ⟨hvirtual, -⟩ := hproper.linked (by rw [hbase]; rfl)
  have hstatic := hproper.isVirtual hvirtual
  have hsome : r.vtableSlot.isSome := by
    rw [hown.slotted r hr, RealizedMethod.isStatic, hattributes]
    exact ⟨h.based t ht (by rw [hx]; rfl), hvirtual, hstatic⟩
  rw [hslot] at hsome
  cases hsome

/-- The root of a method with a slot, along the bases of a type. -/
theorem Linear.exists_root_above
    (h : p.Linear ts) (ht : t ∈ ts) (hc : Inherits ts t c) (hr : r ∈ c.methods)
    (hslot : r.vtableSlot = some slot) :
  ∃ c' first, Inherits ts t c' ∧ first ∈ c'.methods ∧ first.vtableSlot = some slot
    ∧ p.Root r.handle first.handle
  := by
  obtain ⟨j, hj⟩ := List.getElem?_of_mem (h.layered.tabled.size_le ht hc).1
  obtain ⟨c', first, hinherits, hrest⟩ := exists_root h hj hr hslot
  exact ⟨c', first, hc.trans hinherits, hrest⟩

/-- A method of one line of bases has a slot exactly if it has the root that the slot belongs to.  A
method without links is its own root. -/
theorem slot_iff_root
    (h : p.Linear ts) (ht : t ∈ ts) (hc : Inherits ts t c) (hr : r ∈ c.methods)
    (hslot : r.vtableSlot = some slot) (hroot : p.Root r.handle root) (hc' : Inherits ts t c')
    (hr' : r' ∈ c'.methods) :
  r'.vtableSlot = some slot ↔ p.Root r'.handle root
  := by
  obtain ⟨d, first, hd, hfirst, hfirstslot, hfirstroot⟩ := h.exists_root_above ht hc hr hslot
  obtain rfl := hroot.unique hfirstroot
  have hfound : ∀ {c r}, Inherits ts t c → r ∈ c.methods → methodIn ts r.handle = some r :=
    fun hc hr =>
      have hmem := (h.layered.tabled.size_le ht hc).1
      (h.arranged _ hmem).methodIn_handle h.layered hmem hr
  cases hslot' : r'.vtableSlot with
  | none =>
      constructor
      · rintro ⟨⟩
      · intro hsame
        have hmem := (h.layered.tabled.size_le ht hc').1
        have hhandle := hsame.unique (.of_unlinked (h.unlinked_of_no_slot hmem hr' hslot'))
        have heq := hfound hd hfirst
        rw [hhandle, hfound hc' hr'] at heq
        cases heq
        rw [hfirstslot] at hslot'
        cases hslot'
  | some slot' =>
      obtain ⟨d', second, hd', hsecond, hsecondslot, hsecondroot⟩ :=
        h.exists_root_above ht hc' hr' hslot'
      constructor
      · rintro ⟨⟩
        obtain ⟨k, hk⟩ := List.getElem?_of_mem ht
        have heq := eq_of_unlinked h hk hd hd' hfirst hsecond hfirstroot.last
          hsecondroot.last hfirstslot hsecondslot
        rwa [heq]
      · intro hsame
        have hhandle := hsame.unique hsecondroot
        have heq := hfound hd hfirst
        rw [hhandle, hfound hd' hsecond] at heq
        cases heq
        rw [← hfirstslot, hsecondslot]

/-! ## Tables -/

/-- The method that a type has for a slot: the last of its own methods with the slot, or else
the one that its base has. -/
inductive Holds (ts : List RealizedType) (slot : Nat) : RealizedType → RealizedMethod → Prop
  | own {t : RealizedType} {m : RealizedMethod} (h : lastIn t.methods slot = some m) :
      Holds ts slot t m
  | inherited {t u : RealizedType} {m : RealizedMethod} (hnone : lastIn t.methods slot = none)
      (hbase : RealizedBase ts t u) (h : Holds ts slot u m) : Holds ts slot t m

theorem Holds.mem {m : RealizedMethod} (h : Holds ts slot t m) :
  ∃ c, Inherits ts t c ∧ m ∈ c.methods ∧ m.vtableSlot = some slot
  := by
  induction h with
  | @own t m h =>
      obtain ⟨before, after, hmethods, hslot, -⟩ := exists_of_lastIn h
      exact ⟨t, .refl, by rw [hmethods]; simp, hslot⟩
  | inherited hnone hbase h ih =>
      obtain ⟨c, hinherits, hm, hslot⟩ := ih
      exact ⟨c, hinherits.head hbase, hm, hslot⟩

/-- A table holds in a slot what the type has for it. -/
theorem exists_holds
    {verify : Bool} (hlayered : Layered verify p.decl? ts) (harranged : ∀ t ∈ ts, p.Arranged ts t)
    {k : Nat} (ht : ts[k]? = some t) (hm : t.vtable.method? slot = some m) :
  ∃ held, Holds ts slot t held ∧ held.handle = m
  := by
  induction k using Nat.strongRecOn generalizing t with
  | ind k ih =>
      have hmem := List.mem_of_getElem? ht
      have hown := harranged t hmem
      cases hlast : lastIn t.methods slot with
      | some held =>
          rw [hown.held slot held hlast] at hm
          exact ⟨held, .own hlast, Option.some.inj hm⟩
      | none =>
          cases hbase : t.base with
          | none =>
              rw [hown.bare slot hlast hbase] at hm
              cases hm
          | some x =>
              obtain ⟨u, hu, -⟩ := hlayered.tabled.base t hmem x hbase
              have hstep : RealizedBase ts t u := ⟨x, hbase, hu⟩
              rw [hown.kept slot u hlast hstep] at hm
              obtain ⟨j, hj, huj⟩ := hlayered.earlier ht hstep
              obtain ⟨held, hheld, hhandle⟩ := ih j hj huj hm
              exact ⟨held, .inherited hlast hstep hheld, hhandle⟩

/-- The method of a root in the most derived class that has one, the last declared. -/
inductive Chosen (p : Project) (ts : List RealizedType) (root : MethodRef) :
    RealizedType → RealizedMethod → Prop
  | own {t : RealizedType} {m : RealizedMethod} {before after : List RealizedMethod}
      (hmethods : t.methods = before ++ m :: after) (hroot : p.Root m.handle root)
      (hlast : ∀ m' ∈ after, ¬ p.Root m'.handle root) : Chosen p ts root t m
  | inherited {t u : RealizedType} {m : RealizedMethod}
      (hnone : ∀ m' ∈ t.methods, ¬ p.Root m'.handle root) (hbase : RealizedBase ts t u)
      (h : Chosen p ts root u m) : Chosen p ts root t m

/-- What a type has for a slot is the method of the root that the slot belongs to. -/
theorem chosen_of_holds
    {held : RealizedMethod} (h : Holds ts slot t held)
    (hroots : ∀ c m, Inherits ts t c → m ∈ c.methods →
      (m.vtableSlot = some slot ↔ p.Root m.handle root)) :
  p.Chosen ts root t held
  := by
  induction h with
  | @own t m h =>
      obtain ⟨before, after, hmethods, hslot, hafter⟩ := exists_of_lastIn h
      have hown : ∀ m' ∈ before ++ m :: after,
          (m'.vtableSlot = some slot ↔ p.Root m'.handle root) := by
        rw [← hmethods]
        intro m' hm'
        apply hroots t m' .refl hm'
      apply Chosen.own hmethods ((hown m (by simp)).mp hslot)
      intro m' hm' hroot
      apply hafter m' hm' ((hown m' (by simp [hm'])).mpr hroot)
  | @inherited t u m hnone hbase h ih =>
      apply Chosen.inherited _ hbase
      · apply ih
        intro c m' hc hm'
        apply hroots c m' (hc.head hbase) hm'
      · intro m' hm' hroot
        apply lastIn_eq_none_iff.mp hnone m' hm'
        apply (hroots t m' .refl hm').mpr hroot

end

end Project

end ManagedCode
