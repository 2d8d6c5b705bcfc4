import ManagedCode.Proofs.Assembly.Implementations
import ManagedCode.Proofs.Assembly.Interfaces
import ManagedCode.Proofs.Assembly.Roots

/-!
# Contracts of classes

A class has all interfaces of its bases (`Layered.allInterfaces_subset`).  Where
implementations are verified, a class that can be instantiated has an implementation of every
method of its interfaces (`Layered.exists_implementation`), and no abstract method is left in
its table (`Project.Sound.concrete`).
-/

namespace ManagedCode

open Relation

/-! ## Interfaces as they are declared -/

section

variable {verify : Bool} {decls : TypeId → Option TypeDecl} {w : Workspace} {x y : TypeId}

def DeclaresBase (decls : TypeId → Option TypeDecl) (x y : TypeId) : Prop :=
  ∃ d, decls x = some d ∧ d.baseId? = some y

def DeclaresInterface (decls : TypeId → Option TypeDecl) (x y : TypeId) : Prop :=
  ∃ d, decls x = some d ∧ y ∈ d.interfaceIds

/-- Declared interface links lead to a type from another one or from its bases. -/
def DeclaredImplements (decls : TypeId → Option TypeDecl) (x y : TypeId) : Prop :=
  ∃ c i, ReflTransGen (DeclaresBase decls) x c ∧ DeclaresInterface decls c i
    ∧ ReflTransGen (DeclaresInterface decls) i y

/-- A unit sees the links of a type as they are declared. -/
def Workspace.Sees (w : Workspace) (decls : TypeId → Option TypeDecl) (x : TypeId) : Prop :=
  ∃ s d, w.view? x = some s ∧ decls x = some d ∧ s.base = d.baseId? ∧ s.interfaces = d.interfaceIds

theorem Workspace.Sees.hasBase_iff (h : w.Sees decls x) : w.HasBase x y ↔ DeclaresBase decls x y := by
  obtain ⟨s, d, hs, hd, hbase, -⟩ := h
  rw [HasBase, DeclaresBase, hs, hd]
  simp [hbase]

theorem Workspace.Sees.hasInterface_iff (h : w.Sees decls x) :
  w.HasInterface x y ↔ DeclaresInterface decls x y
  := by
  obtain ⟨s, d, hs, hd, -, hinterfaces⟩ := h
  rw [HasInterface, DeclaresInterface, hs, hd]
  simp [hinterfaces]

/-- A unit sees realized types as they are declared. -/
theorem Layered.sees
    (h : Layered verify decls w.session.types) (hsettled : w.Settled)
    (hkept : ∀ x d, w.assembly.decl? x = some d → d.state = .realized → decls x = some d)
    {t : RealizedType} (ht : w.session.realized? x = some t) :
  w.Sees decls x
  := by
  have hmem := List.mem_of_find?_eq_some ht
  obtain rfl : t.id = x := by simpa using List.find?_some ht
  obtain ⟨d, hd, -, hmirrors, hinterfaces⟩ := h.mirrors hmem
  cases hw : w.assembly.decl? t.id with
  | none =>
      refine ⟨.ofRealized t, d, ?_, hd, hmirrors.base, hinterfaces⟩
      rw [Workspace.view?_of_no_decl hw, ht]
      rfl
  | some d' =>
      cases hstate : d'.state with
      | building => cases hsettled.not_realized hw hstate t hmem rfl
      | realized =>
          exact ⟨_, d', Workspace.view?_of_decl hw, hkept t.id d' hw hstate, rfl, rfl⟩

/-- What a class implements when it is laid out is what is declared.  Whatever links lead to is
realized, so that its links are as declared, too. -/
theorem Layered.implements_iff
    (h : Layered verify decls w.session.types) (hsettled : w.Settled)
    (hkept : ∀ x d, w.assembly.decl? x = some d → d.state = .realized → decls x = some d)
    {d : TypeDecl} {base : Option RealizedType} (hd : w.assembly.decl? x = some d)
    (hdecl : decls x = some d.asRealized) (hbase : w.layoutBase d = .ok base)
    (hrealized : ∀ y, w.Implements x y → ∃ t, w.session.realized? y = some t) :
  w.Implements x y ↔ DeclaredImplements decls x y
  := by
  have hline : ∀ {c}, ReflTransGen w.HasBase x c → w.Sees decls c := by
    intro c hpath
    obtain rfl | hbelow := reflTransGen_iff_eq_or_transGen.mp hpath
    · exact ⟨_, _, Workspace.view?_of_decl hd, hdecl, rfl, rfl⟩
    · obtain ⟨-, above, -, habove, -⟩ := hsettled.inherits_of_below h.tabled hd hbase hbelow
      apply h.sees hsettled hkept habove
  have hbases : ∀ {c}, ReflTransGen w.HasBase x c ↔ ReflTransGen (DeclaresBase decls) x c := by
    intro c
    constructor
    · intro hpath
      induction hpath with
      | refl => exact .refl
      | tail hpath hstep ih => exact ih.tail ((hline hpath).hasBase_iff.mp hstep)
    · intro hpath
      induction hpath with
      | refl => exact .refl
      | tail _ hstep ih => exact ih.tail ((hline ih).hasBase_iff.mpr hstep)
  have hinterfaces : ∀ {c i}, ReflTransGen w.HasBase x c → w.HasInterface c i →
      (ReflTransGen w.HasInterface i y ↔ ReflTransGen (DeclaresInterface decls) i y) := by
    intro c i hc hi
    have hsees : ∀ {z}, ReflTransGen w.HasInterface i z → w.Sees decls z := by
      intro z hz
      obtain ⟨t, ht⟩ := hrealized z ⟨c, i, hc, hi, hz⟩
      apply h.sees hsettled hkept ht
    constructor
    · intro hpath
      induction hpath with
      | refl => exact .refl
      | tail hpath hstep ih => exact ih.tail ((hsees hpath).hasInterface_iff.mp hstep)
    · intro hpath
      induction hpath with
      | refl => exact .refl
      | tail _ hstep ih => exact ih.tail ((hsees ih).hasInterface_iff.mpr hstep)
  constructor
  · rintro ⟨c, i, hc, hi, hpath⟩
    exact ⟨c, i, hbases.mp hc, (hline hc).hasInterface_iff.mp hi, (hinterfaces hc hi).mp hpath⟩
  · rintro ⟨c, i, hc, hi, hpath⟩
    have hc := hbases.mpr hc
    have hi := (hline hc).hasInterface_iff.mpr hi
    exact ⟨c, i, hc, hi, (hinterfaces hc hi).mpr hpath⟩

end

/-! ## What a class is laid out with -/

namespace Workspace

variable {w : Workspace} {d : TypeDecl} {methods : List RealizedMethod} {bases : List TypeId}
  {map map' : List (MethodRef × MethodRef)}

variable {x : TypeId} {t : RealizedType}

/-- A class is laid out with all its interfaces and with implementations of their methods. -/
theorem layoutType_class
    (h : w.layoutType x = .ok t) (hd : w.assembly.decl? x = some d)
    (hclass : t.handle.kind = .classType) :
  (∃ base, w.layoutBase d = .ok base) ∧ w.allInterfaces x = .ok t.allInterfaces
  ∧ ∃ bases map, w.implementAll d t.methods bases map t.allInterfaces = .ok t.interfaceMap
  := by
  obtain ⟨d', base, hd', hmirrors, hbase, h⟩ := layoutType_ok h
  rw [hd] at hd'
  cases hd'
  rw [layoutInterfaces] at h
  rw [← hmirrors.handle, hclass, if_pos (beq_self_eq_true _), Assembly.decl?_id hd] at h
  obtain ⟨interfaces, hinterfaces, h⟩ := exists_of_bind_ok h
  obtain ⟨bases, -, h⟩ := exists_of_bind_ok h
  obtain ⟨map, hmap, h⟩ := exists_of_bind_ok h
  obtain ⟨rfl, rfl⟩ := Prod.mk.inj (Except.ok.inj h)
  exact ⟨⟨base, hbase⟩, hinterfaces, bases, _, hmap⟩

/-- What is checked when a type is laid out. -/
theorem layoutType_checks (h : w.layoutType x = .ok t) (hd : w.assembly.decl? x = some d) :
  t.handle = d.handle ∧ t.attributes = d.attributes
  ∧ ∃ l, t.methods = l.methods ∧ t.vtable = l.vtable ∧ w.checkSlots d l = .ok ()
  := by
  rw [layoutType] at h
  obtain ⟨d', hd', h⟩ := exists_of_bind_ok h
  rw [Assembly.decl_ok hd'] at hd
  cases hd
  obtain ⟨base, -, h⟩ := exists_of_bind_ok h
  obtain ⟨l, -, h⟩ := exists_of_bind_ok h
  obtain ⟨⟨all, map⟩, -, h⟩ := exists_of_bind_ok h
  obtain ⟨⟨⟩, hchecks, h⟩ := exists_of_bind_ok h
  cases h
  exact ⟨rfl, rfl, l, rfl, rfl, hchecks⟩

/-- Where implementations are verified, every interface method gets one. -/
theorem implementOne_total
    {interface : RealizedType} {contracts : List RealizedMethod}
    (hverify : w.session.verifyImplementations = true) (hconcrete : d.attributes.isAbstract = false)
    (h : w.implementOne d methods bases interface map contracts = .ok map') :
  (∀ k, (map.lookup k).isSome → (map'.lookup k).isSome)
  ∧ ∀ contract ∈ contracts, contract.IsContract → (map'.lookup contract.handle).isSome
  := by
  induction contracts generalizing map with
  | nil =>
      cases h
      exact ⟨fun _ hk => hk, by simp⟩
  | cons contract rest ih =>
      rw [implementOne] at h
      split at h
      · next hnot =>
        obtain ⟨hkept, hall⟩ := ih h
        refine ⟨hkept, ?_⟩
        intro contract' hmem hplain
        obtain rfl | hmem := List.mem_cons.mp hmem
        · simp [hplain.1, hplain.2] at hnot
        · apply hall contract' hmem hplain
      · split at h
        · next m hm =>
          obtain ⟨hkept, hall⟩ := ih h
          constructor
          · intro k hk
            apply hkept
            rw [lookup_mapTo]
            split
            · rfl
            · apply hk
          · intro contract' hmem hplain
            obtain rfl | hmem := List.mem_cons.mp hmem
            · apply hkept
              rw [lookup_mapTo, if_pos rfl]
              rfl
            · apply hall contract' hmem hplain
        · rw [hverify, hconcrete] at h
          cases h

theorem implementAll_total
    {ids : List TypeId} (hverify : w.session.verifyImplementations = true)
    (hconcrete : d.attributes.isAbstract = false)
    (h : w.implementAll d methods bases map ids = .ok map') :
  (∀ k, (map.lookup k).isSome → (map'.lookup k).isSome)
  ∧ ∀ i ∈ ids, ∀ interface, w.session.realized? i = some interface →
      ∀ contract ∈ interface.methods, contract.IsContract → (map'.lookup contract.handle).isSome
  := by
  induction ids generalizing map with
  | nil =>
      cases h
      exact ⟨fun _ hk => hk, by simp⟩
  | cons i rest ih =>
      rw [implementAll] at h
      split at h
      · cases h
      · next interface hi =>
        obtain ⟨map₁, hone, hrest⟩ := exists_of_bind_ok h
        obtain ⟨hkept₁, hall₁⟩ := implementOne_total hverify hconcrete hone
        obtain ⟨hkept, hall⟩ := ih hrest
        refine ⟨fun k hk => hkept k (hkept₁ k hk), ?_⟩
        intro i' hmem interface' hi' contract hcontract hplain
        obtain rfl | hmem := List.mem_cons.mp hmem
        · rw [hi] at hi'
          cases hi'
          apply hkept
          apply hall₁ contract hcontract hplain
        · apply hall i' hmem interface' hi' contract hcontract hplain

/-- Where implementations are verified, no slot of a class that can be instantiated holds an
abstract method. -/
theorem checkSlots_ok
    {l : MethodLayout} (hverify : w.session.verifyImplementations = true)
    (hconcrete : d.attributes.isAbstract = false) (hclass : d.handle.kind = .classType)
    (h : w.checkSlots d l = .ok ()) {slot : Nat} {m : MethodRef} {method : RealizedMethod}
    (hslot : l.vtable.method? slot = some m)
    (hmethod : (if m.owner == d.id then l.methods[m.index]?
      else (w.session.realized? m.owner).bind (·.method? m.index)) = some method) :
  method.isAbstract = false
  := by
  rw [checkSlots] at h
  rw [hverify, hconcrete, hclass] at h
  simp only [beq_self_eq_true, Bool.not_false, Bool.and_self, if_true] at h
  split at h
  · cases h
  · next hnone =>
    rw [abstractSlot?] at hnone
    rw [List.findSome?_eq_none_iff] at hnone
    have hentry : (slot, m) ∈ l.vtable.methods.mapIdx fun slot m => (slot, m) := by
      apply List.mem_of_getElem? (i := slot)
      rw [List.getElem?_mapIdx]
      change (l.vtable.method? slot).map _ = _
      rw [hslot]
      rfl
    have := hnone _ hentry
    dsimp only at this
    rw [hmethod] at this
    simpa using this

end Workspace

/-! ## Interfaces of realized classes -/

section

variable {verify : Bool} {decls : TypeId → Option TypeDecl} {ts : List RealizedType}
  {t c : RealizedType}

/-- The interfaces of a class. -/
theorem Layered.mem_allInterfaces_iff
    (h : Layered verify decls ts) (ht : t ∈ ts) (hclass : t.handle.kind = .classType) {x : TypeId} :
  x ∈ t.allInterfaces ↔ DeclaredImplements decls t.id x
  := by
  induction h with
  | nil => cases ht
  | @snoc w t' d h hsettled hverify hd hbuilding hdecl hkept hlayout ih =>
      obtain ht | ht := List.mem_append.mp ht
      · apply ih ht
      · obtain rfl := List.mem_singleton.mp ht
        obtain ⟨⟨base, hbase⟩, hall, bases, map, hmap⟩ :=
          Workspace.layoutType_class hlayout hd hclass
        rw [Workspace.mem_allInterfaces_iff hall]
        apply h.implements_iff hsettled hkept hd hdecl hbase
        intro y hy
        apply Workspace.implementAll_realized hmap
        rwa [Workspace.mem_allInterfaces_iff hall]

/-- A class has the interfaces of its bases. -/
theorem Layered.allInterfaces_subset
    (h : Layered verify decls ts) (ht : t ∈ ts) (hc : Inherits ts t c)
    (hclass : t.handle.kind = .classType) (hclass' : c.handle.kind = .classType) :
  c.allInterfaces ⊆ t.allInterfaces
  := by
  have hmem : ∀ {c}, Inherits ts t c → c ∈ ts := fun hc => (h.tabled.size_le ht hc).1
  have hline : ReflTransGen (DeclaresBase decls) t.id c.id := by
    clear hclass'
    induction hc with
    | refl => exact .refl
    | tail hpath hstep ih =>
        obtain ⟨x, hx, hfound⟩ := hstep
        obtain ⟨d, hd, -, hmirrors, -⟩ := h.mirrors (hmem hpath)
        refine ih.tail ⟨d, hd, ?_⟩
        rw [← hmirrors.base, hx]
        have := List.find?_some hfound
        simpa using (eq_of_beq this).symm
  intro x hx
  rw [h.mem_allInterfaces_iff (hmem hc) hclass'] at hx
  rw [h.mem_allInterfaces_iff ht hclass]
  obtain ⟨e, i, hpath, hrest⟩ := hx
  exact ⟨e, i, hline.trans hpath, hrest⟩

/-- Where implementations are verified, a class that is not abstract has an implementation of
each method of its interfaces. -/
theorem Layered.exists_implementation
    (h : Layered true decls ts) (ht : t ∈ ts) (hclass : t.handle.kind = .classType)
    (hconcrete : t.attributes.isAbstract = false) {i : TypeId} (hi : i ∈ t.allInterfaces) :
  ∃ interface, ts.find? (·.id == i) = some interface
    ∧ ∀ contract ∈ interface.methods, contract.IsContract →
      ∃ m, t.implementation? contract.handle = some m
  := by
  induction h with
  | nil => cases ht
  | @snoc w t' d h hsettled hverify hd hbuilding hdecl hkept hlayout ih =>
      obtain ht | ht := List.mem_append.mp ht
      · obtain ⟨interface, hinterface, hall⟩ := ih ht
        exact ⟨interface, find?_append_of_some hinterface, hall⟩
      · obtain rfl := List.mem_singleton.mp ht
        obtain ⟨-, hattributes, -⟩ := Workspace.layoutType_checks hlayout hd
        rw [hattributes] at hconcrete
        obtain ⟨-, -, bases, map, hmap⟩ := Workspace.layoutType_class hlayout hd hclass
        obtain ⟨interface, hinterface⟩ := Workspace.implementAll_realized hmap i hi
        refine ⟨interface, find?_append_of_some hinterface, ?_⟩
        intro contract hcontract hplain
        apply Option.isSome_iff_exists.mp
        apply (Workspace.implementAll_total hverify hconcrete hmap).2 i hi interface hinterface
          contract hcontract hplain

/-- The method that is looked at when a slot is checked is the one that the session has when the
type is realized. -/
theorem checked_method
    {m : MethodRef} {method : RealizedMethod} (ht : (ts ++ [t]).find? (·.id == t.id) = some t)
    (hm : methodIn (ts ++ [t]) m = some method) :
  (if m.owner == t.id then t.methods[m.index]?
    else (ts.find? (·.id == m.owner)).bind (·.method? m.index)) = some method
  := by
  rw [methodIn] at hm
  split
  · next howner =>
    rw [eq_of_beq howner, ht] at hm
    apply hm
  · next howner =>
    have hother : [t].find? (·.id == m.owner) = none := by
      apply List.find?_eq_none.mpr
      intro t' ht' hid
      apply howner
      rw [List.mem_singleton.mp ht'] at hid
      rw [eq_of_beq hid]
      apply beq_self_eq_true
    rwa [List.find?_append, hother, Option.or_none] at hm

theorem Layered.mapped (h : Layered verify decls ts) : Mapped ts := by
  induction h with
  | nil => exact ⟨by simp, by simp⟩
  | snoc h hsettled hverify hd hbuilding hdecl hkept hlayout ih =>
      apply hsettled.mapped_snoc h.tabled ih hlayout

end

/-! ## Classes that can be instantiated -/

namespace Project

variable {p : Project} {verify : Bool} {ts : List RealizedType} {t : RealizedType}

/-- Only classes can be instantiated. -/
theorem Sound.class_of_instantiable
    (h : p.Sound) (hlayered : Layered verify p.decl? ts) (ht : t ∈ ts) (hinstantiable : t.isInstantiable) :
  t.handle.kind = .classType ∧ t.attributes.isAbstract = false
  := by
  obtain ⟨d, hd, hhandle, hattributes⟩ : ∃ d, p.decl? t.id = some d ∧ t.handle = d.handle
      ∧ t.attributes = d.attributes := by
    induction hlayered with
    | nil => cases ht
    | @snoc w t' d hlayered hsettled hverify hd hbuilding hdecl hkept hlayout ih =>
        obtain ht | ht := List.mem_append.mp ht
        · apply ih ht
        · obtain rfl := List.mem_singleton.mp ht
          obtain ⟨hhandle, hattributes, -⟩ := Workspace.layoutType_checks hlayout hd
          exact ⟨_, hdecl, hhandle, hattributes⟩
  obtain ⟨i, a, ha, hd⟩ := exists_of_decl? hd
  have hregular := (h.regular ha _ d hd).attributes
  rw [RealizedType.isInstantiable] at hinstantiable
  simp only [Bool.not_eq_true', Bool.or_eq_false_iff] at hinstantiable
  obtain ⟨⟨habstract, hinterface⟩, hvalue⟩ := hinstantiable
  refine ⟨?_, habstract⟩
  rw [hattributes, hregular] at hinterface hvalue
  rw [hhandle]
  cases hkind : d.handle.kind with
  | classType => rfl
  | interfaceType => simp [hkind, TypeAttributes.of] at hinterface
  | enumType underlying => simp [hkind, TypeAttributes.of] at hvalue

/-- Where implementations are verified, the table of a class that can be instantiated holds no
abstract method. -/
theorem Sound.concrete
    (h : p.Sound) (hlayered : Layered true p.decl? ts) (ht : t ∈ ts)
    (hinstantiable : t.isInstantiable) {slot : Nat} {m : MethodRef}
    (hslot : t.vtable.method? slot = some m) :
  ∃ held, methodIn ts m = some held ∧ held.isAbstract = false
  := by
  induction hlayered with
  | nil => cases ht
  | @snoc w t' d hlayered hsettled hverify hd hbuilding hdecl hkept hlayout ih =>
      obtain hold | hnew := List.mem_append.mp ht
      · obtain ⟨held, hheld, hconcrete⟩ := ih hold
        exact ⟨held, methodIn_append hheld _, hconcrete⟩
      · obtain rfl := List.mem_singleton.mp hnew
        have hall := Layered.snoc hlayered hsettled hverify hd hbuilding hdecl hkept hlayout
        obtain ⟨hclass, hconcrete⟩ := h.class_of_instantiable hall ht hinstantiable
        obtain ⟨k, hk⟩ := List.getElem?_of_mem ht
        obtain ⟨held, hholds, rfl⟩ := exists_holds hall (h.arranged hall) hk hslot
        obtain ⟨c, hc, hmem, -⟩ := hholds.mem
        have hcmem := (hall.tabled.size_le ht hc).1
        have hheld := (h.arranged hall c hcmem).methodIn_handle hall hcmem hmem
        refine ⟨held, hheld, ?_⟩
        obtain ⟨hhandle, hattributes, l, hmethods, hvtable, hchecks⟩ :=
          Workspace.layoutType_checks hlayout hd
        rw [hattributes] at hconcrete
        rw [hhandle] at hclass
        rw [hvtable] at hslot
        apply Workspace.checkSlots_ok hverify hconcrete hclass hchecks hslot
        rw [← hmethods, Assembly.decl?_id hd]
        apply checked_method (hall.find ht) hheld

end Project

end ManagedCode
