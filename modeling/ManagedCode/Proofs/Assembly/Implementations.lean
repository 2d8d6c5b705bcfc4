import ManagedCode.Machine.Dispatch
import ManagedCode.Proofs.Assembly.Tables
import ManagedCode.Proofs.Assembly.Overriding

/-!
# Implementations of interface methods

What the interface map of a realized type holds.  A type takes for an interface method a
method of its own or of one of its bases.  That method has the signature of the interface
method, with generic parameters matched by position, unless it was linked to the interface
method when it was defined, which is done by name and number of parameters alone.
-/

namespace ManagedCode

open Relation

variable {ρ : Type}

/-! ## Signatures -/

namespace RealizedMethod

/-- A type of a method with the generic parameters of an interface method in the place of
those of the method. -/
def renameFor (m contract : RealizedMethod) (t : TypeRef) : TypeRef :=
  t.substitute m.genericParams (contract.genericParams.map .generic)

/-- A method has the signature of an interface method, with the generic parameters of the
two matched by position. -/
structure Conforms (m contract : RealizedMethod) : Prop where
  arity : m.genericParams.length = contract.genericParams.length
  params : m.paramTypes.map (m.renameFor contract) = contract.paramTypes
  returnType : m.renameFor contract m.returnType = contract.returnType

/-- An interface method that can be implemented. -/
def IsContract (m : RealizedMethod) : Prop :=
  m.kind.isConstructor = false ∧ m.isStatic = false

theorem Conforms.of_fulfils {m contract : RealizedMethod} (h : m.fulfils contract) :
  m.Conforms contract
  := by
  simp only [fulfils, Bool.and_eq_true, beq_iff_eq] at h
  obtain ⟨⟨⟨-, harity⟩, hparams⟩, hreturn⟩ := h
  refine ⟨harity, ?_, hreturn⟩
  rw [← hparams, paramTypes, List.map_map]
  rfl

/-- Only a method of objects fulfils an interface method. -/
theorem isStatic_of_fulfils {m contract : RealizedMethod} (h : m.fulfils contract) :
  m.isStatic = false
  := by
  simp only [fulfils, Bool.and_eq_true, Bool.not_eq_true'] at h
  exact h.1.1.1.1.2

end RealizedMethod

/-- The first method of a type that is linked to an interface method. -/
def RealizedType.linked? (t : RealizedType) (contract : MethodRef) : Option RealizedMethod :=
  t.methods.find? (·.overrides == some contract)

/-! ## Filling an interface map -/

theorem lookup_mapTo (map : List (MethodRef × MethodRef)) (k m k' : MethodRef) :
  (Workspace.mapTo map k m).lookup k' = if k' = k then some m else map.lookup k'
  := by
  rw [Workspace.mapTo]
  rw [List.lookup_cons]
  by_cases hk : k' = k
  · simp [hk]
  · rw [if_neg hk, beq_eq_false_iff_ne.mpr hk]
    dsimp only
    induction map with
    | nil => rfl
    | cons entry rest ih =>
        obtain ⟨x, y⟩ := entry
        by_cases hx : x = k
        · subst hx
          simp [List.lookup_cons, ih, beq_eq_false_iff_ne.mpr hk]
        · simp only [List.filter_cons, bne_iff_ne, ne_eq, hx, not_false_eq_true, if_true,
            List.lookup_cons, ih]

namespace Workspace

variable {w : Workspace} {d : TypeDecl} {methods : List RealizedMethod} {bases : List TypeId}
  {interface : RealizedType} {map map' : List (MethodRef × MethodRef)}

theorem implementationOf_linked
    {contract own : RealizedMethod}
    (h : methods.find? (·.overrides == some contract.handle) = some own) :
  w.implementationOf methods map bases contract = some own.handle
  := by
  simp [implementationOf, h]

/-- Where an implementation comes from. -/
theorem implementationOf_cases
    {contract : RealizedMethod} {m : MethodRef}
    (h : w.implementationOf methods map bases contract = some m) :
  (∃ own, methods.find? (·.overrides == some contract.handle) = some own ∧ own.handle = m)
  ∨ (∃ own ∈ methods, own.fulfils contract ∧ own.handle = m)
  ∨ map.lookup contract.handle = some m
  ∨ ∃ base ∈ bases, ∃ t, w.session.realized? base = some t
      ∧ ∃ own ∈ t.methods, own.fulfils contract ∧ own.handle = m
  := by
  have hpublic : ∀ ms : List RealizedMethod,
      (ms.find? fun own => own.attributes.isPublic && own.fulfils contract).map (·.handle) = some m →
        ∃ own ∈ ms, own.fulfils contract ∧ own.handle = m := by
    intro ms hfound
    obtain ⟨own, hown, hhandle⟩ := Option.map_eq_some_iff.mp hfound
    have hfulfils := List.find?_some hown
    simp only [Bool.and_eq_true] at hfulfils
    exact ⟨own, List.mem_of_find?_eq_some hown, hfulfils.2, hhandle⟩
  rw [implementationOf] at h
  simp only [Option.orElse_eq_orElse, Option.orElse_eq_or, Option.or_eq_some_iff] at h
  obtain hlinked | ⟨-, hown | ⟨-, hmap | ⟨-, hbase⟩⟩⟩ := h
  · left
    apply Option.map_eq_some_iff.mp hlinked
  · right; left
    apply hpublic methods hown
  · right; right; left
    apply hmap
  · right; right; right
    obtain ⟨base, hmem, hfound⟩ := List.exists_of_findSome?_eq_some hbase
    obtain ⟨t, ht, hfound⟩ := Option.bind_eq_some_iff.mp hfound
    exact ⟨base, hmem, t, ht, hpublic t.methods hfound⟩

/-- What all entries of a map have they have when the methods of an interface are mapped,
if the implementations that are found have it. -/
theorem implementOne_keeps
    {P : MethodRef → MethodRef → Prop} {contracts : List RealizedMethod}
    (hfound : ∀ map contract m, contract ∈ contracts → contract.IsContract →
      (∀ k m, map.lookup k = some m → P k m) →
      w.implementationOf methods map bases contract = some m → P contract.handle m)
    (hmap : ∀ k m, map.lookup k = some m → P k m)
    (h : w.implementOne d methods bases interface map contracts = .ok map') :
  ∀ k m, map'.lookup k = some m → P k m
  := by
  induction contracts generalizing map with
  | nil =>
      cases h
      apply hmap
  | cons contract rest ih =>
      have hrest := fun map contract' m hmem =>
        hfound map contract' m (List.mem_cons_of_mem contract hmem)
      rw [implementOne] at h
      split at h
      · apply ih hrest hmap h
      · next hcontract =>
        split at h
        · next m hm =>
          apply ih hrest _ h
          intro k m' hm'
          rw [lookup_mapTo] at hm'
          split at hm'
          · next hk =>
            cases hm'
            rw [hk]
            apply hfound map contract m List.mem_cons_self _ hmap hm
            simpa [RealizedMethod.IsContract] using hcontract
          · apply hmap k m' hm'
        · split at h
          · cases h
          · apply ih hrest hmap h

theorem implementAll_keeps
    {P : MethodRef → MethodRef → Prop} {ids : List TypeId}
    (hfound : ∀ map i interface contract m, i ∈ ids → w.session.realized? i = some interface →
      contract ∈ interface.methods → contract.IsContract →
      (∀ k m, map.lookup k = some m → P k m) →
      w.implementationOf methods map bases contract = some m → P contract.handle m)
    (hmap : ∀ k m, map.lookup k = some m → P k m)
    (h : w.implementAll d methods bases map ids = .ok map') :
  ∀ k m, map'.lookup k = some m → P k m
  := by
  induction ids generalizing map with
  | nil =>
      cases h
      apply hmap
  | cons i rest ih =>
      rw [implementAll] at h
      split at h
      · cases h
      · next interface hi =>
        obtain ⟨map₁, hone, hrest⟩ := exists_of_bind_ok h
        apply ih _ _ hrest
        · intro map i' interface' contract m hmem
          apply hfound map i' interface' contract m (List.mem_cons_of_mem i hmem)
        · apply implementOne_keeps _ hmap hone
          intro map contract m
          apply hfound map i interface contract m List.mem_cons_self hi

/-- A method that is linked to an interface method is what the interface method is mapped to.
Whatever is mapped keeps the entry, and mapping the interface method makes it. -/
theorem implementOne_linked
    {contracts : List RealizedMethod} {k : MethodRef} {own : RealizedMethod}
    (hlinked : methods.find? (·.overrides == some k) = some own)
    (h : w.implementOne d methods bases interface map contracts = .ok map')
    (hmap : map.lookup k = some own.handle
      ∨ ∃ contract ∈ contracts, contract.handle = k ∧ contract.IsContract) :
  map'.lookup k = some own.handle
  := by
  induction contracts generalizing map with
  | nil =>
      cases h
      obtain hmap | ⟨contract, hmem, -⟩ := hmap
      · apply hmap
      · cases hmem
  | cons contract rest ih =>
      have hstep : ∀ m, (contract.handle = k → m = own.handle) →
          map.lookup k = some own.handle ∨ contract.handle = k →
          (mapTo map contract.handle m).lookup k = some own.handle := by
        intro m hm hk
        rw [lookup_mapTo]
        split
        · next heq => rw [hm heq.symm]
        · next hne => apply hk.resolve_right (Ne.symm hne)
      rw [implementOne] at h
      split at h
      · next hnot =>
        apply ih h
        obtain hmap | ⟨contract', hmem, hk, hcontract⟩ := hmap
        · left
          apply hmap
        · obtain rfl | hmem := List.mem_cons.mp hmem
          · simp [hcontract.1, hcontract.2] at hnot
          · right
            exact ⟨contract', hmem, hk, hcontract⟩
      · split at h
        · next m hm =>
          have hown : contract.handle = k → m = own.handle := by
            intro hk
            subst hk
            rw [implementationOf_linked hlinked] at hm
            exact (Option.some.inj hm).symm
          apply ih h
          obtain hmap | ⟨contract', hmem, hk, hcontract⟩ := hmap
          · left
            apply hstep m hown (.inl hmap)
          · obtain rfl | hmem := List.mem_cons.mp hmem
            · left
              apply hstep m hown (.inr hk)
            · right
              exact ⟨contract', hmem, hk, hcontract⟩
        · next hnone =>
          split at h
          · cases h
          · apply ih h
            obtain hmap | ⟨contract', hmem, hk, hcontract⟩ := hmap
            · left
              apply hmap
            · obtain rfl | hmem := List.mem_cons.mp hmem
              · subst hk
                rw [implementationOf_linked hlinked] at hnone
                cases hnone
              · right
                exact ⟨contract', hmem, hk, hcontract⟩

theorem implementAll_linked
    {ids : List TypeId} {k : MethodRef} {own : RealizedMethod}
    (hlinked : methods.find? (·.overrides == some k) = some own)
    (h : w.implementAll d methods bases map ids = .ok map')
    (hmap : map.lookup k = some own.handle
      ∨ ∃ i ∈ ids, ∃ interface, w.session.realized? i = some interface
          ∧ ∃ contract ∈ interface.methods, contract.handle = k ∧ contract.IsContract) :
  map'.lookup k = some own.handle
  := by
  induction ids generalizing map with
  | nil =>
      cases h
      obtain hmap | ⟨i, hi, -⟩ := hmap
      · apply hmap
      · cases hi
  | cons i rest ih =>
      rw [implementAll] at h
      split at h
      · cases h
      · next interface hi =>
        obtain ⟨map₁, hone, hrest⟩ := exists_of_bind_ok h
        apply ih hrest
        obtain hmap | ⟨i', hmem, interface', hi', hcontract⟩ := hmap
        · left
          apply implementOne_linked hlinked hone (.inl hmap)
        · obtain rfl | hmem := List.mem_cons.mp hmem
          · left
            rw [hi] at hi'
            cases hi'
            apply implementOne_linked hlinked hone (.inr hcontract)
          · right
            exact ⟨i', hmem, interface', hi', hcontract⟩

/-- The interfaces whose methods are mapped are realized. -/
theorem implementAll_realized
    {ids : List TypeId} (h : w.implementAll d methods bases map ids = .ok map') :
  ∀ i ∈ ids, ∃ interface, w.session.realized? i = some interface
  := by
  induction ids generalizing map with
  | nil => simp
  | cons i rest ih =>
      rw [implementAll] at h
      split at h
      · cases h
      · next interface hi =>
        obtain ⟨map₁, -, hrest⟩ := exists_of_bind_ok h
        intro i' hmem
        obtain rfl | hmem := List.mem_cons.mp hmem
        · exact ⟨interface, hi⟩
        · apply ih hrest i' hmem

end Workspace

/-! ## Maps of realized types -/

/-- A type takes a method for an interface method: a method of its own or of one of its
bases, which is a method of objects with the signature of the interface method, or is linked
to it. -/
def Takes (ts : List RealizedType) (t : RealizedType) (k m : MethodRef) : Prop :=
  ∃ interface ∈ ts, ∃ contract ∈ interface.methods, contract.IsContract ∧ contract.handle = k
    ∧ ∃ c ∈ ts, Inherits ts t c ∧ ∃ own ∈ c.methods, own.handle = m
      ∧ (own.Conforms contract ∧ own.isStatic = false ∨ c.linked? k = some own)

theorem Takes.append {ts : List RealizedType} {t : RealizedType} {k m : MethodRef}
    (h : Takes ts t k m) (new : List RealizedType) :
  Takes (ts ++ new) t k m
  := by
  obtain ⟨interface, hinterface, contract, hmem, hcontract, hk, c, hc, hinherits, hown⟩ := h
  exact ⟨interface, List.mem_append_left new hinterface, contract, hmem, hcontract, hk, c,
    List.mem_append_left new hc, hinherits.append new, hown⟩

/-- A type takes what its base takes. -/
theorem Takes.inherited {ts : List RealizedType} {t b : RealizedType} {k m : MethodRef}
    (hbase : RealizedBase ts t b) (h : Takes ts b k m) :
  Takes ts t k m
  := by
  obtain ⟨interface, hinterface, contract, hmem, hcontract, hk, c, hc, hinherits, hown⟩ := h
  exact ⟨interface, hinterface, contract, hmem, hcontract, hk, c, hc, hinherits.head hbase, hown⟩

/-- The interface maps of all types hold what the types take, and what is linked to an
interface method is what it is mapped to. -/
structure Mapped (ts : List RealizedType) : Prop where
  entries : ∀ t ∈ ts, ∀ k m, t.implementation? k = some m → Takes ts t k m
  linked : ∀ t ∈ ts, t.handle.kind = .classType → ∀ i ∈ t.allInterfaces,
    ∃ interface, ts.find? (·.id == i) = some interface
      ∧ ∀ contract ∈ interface.methods, contract.IsContract →
        ∀ own, t.linked? contract.handle = some own →
          t.implementation? contract.handle = some own.handle

namespace Workspace

variable {w : Workspace} {t : RealizedType}

/-- The types that a laid out type gets its methods from. -/
theorem Settled.takes_of_layout
    (h : w.Settled) (htabled : Tabled w.session.types) (hmapped : Mapped w.session.types)
    {d : TypeDecl} {base : Option RealizedType} (hd : w.assembly.decl? t.id = some d)
    (hmirrors : t.Mirrors d) (hbase : w.layoutBase d = .ok base)
    (hlayout : w.layoutInterfaces d t.methods ((base.map (·.interfaceMap)).getD [])
      = .ok (t.allInterfaces, t.interfaceMap)) :
  ∀ k m, t.implementation? k = some m → Takes (w.session.types ++ [t]) t k m
  := by
  have ht : t ∈ w.session.types ++ [t] := by simp
  have hstep : ∀ {inherited}, base = some inherited →
      RealizedBase (w.session.types ++ [t]) t inherited := by
    rintro inherited rfl
    obtain ⟨-, hid⟩ := layoutBase_ok hbase
    exact ⟨inherited.id, hmirrors.base.trans hid.symm,
      find?_append_of_some (layoutBase_some hbase)⟩
  have hinherited : ∀ k m, ((base.map (·.interfaceMap)).getD []).lookup k = some m →
      Takes (w.session.types ++ [t]) t k m := by
    intro k m hlookup
    cases base with
    | none => cases hlookup
    | some inherited =>
        have hmem := List.mem_of_find?_eq_some (layoutBase_some hbase)
        apply Takes.inherited (hstep rfl)
        apply Takes.append
        apply hmapped.entries inherited hmem k m hlookup
  rw [layoutInterfaces] at hlayout
  split at hlayout
  · obtain ⟨interfaces, -, hlayout⟩ := exists_of_bind_ok hlayout
    obtain ⟨bases, hbases, hlayout⟩ := exists_of_bind_ok hlayout
    obtain ⟨map, hmap, hlayout⟩ := exists_of_bind_ok hlayout
    obtain ⟨-, rfl⟩ := Prod.mk.inj (Except.ok.inj hlayout)
    apply implementAll_keeps _ hinherited hmap
    intro map i interface contract m _ hi hcontract hplain htakes hfound
    have hinterface : interface ∈ w.session.types ++ [t] :=
      List.mem_append_left _ (List.mem_of_find?_eq_some hi)
    obtain ⟨own, hown, hhandle⟩ | ⟨own, hown, hfulfils, hhandle⟩ | hlookup
        | ⟨b, hb, c, hc, own, hown, hfulfils, hhandle⟩ := implementationOf_cases hfound
    · exact ⟨interface, hinterface, contract, hcontract, hplain, rfl, t, ht, .refl, own,
        List.mem_of_find?_eq_some hown, hhandle, .inr hown⟩
    · exact ⟨interface, hinterface, contract, hcontract, hplain, rfl, t, ht, .refl, own, hown,
        hhandle, .inl ⟨.of_fulfils hfulfils, own.isStatic_of_fulfils hfulfils⟩⟩
    · apply htakes contract.handle m hlookup
    · rw [mem_bases_iff hbases, Assembly.decl?_id hd] at hb
      obtain ⟨inherited, above, hsome, habove, -, hinherits⟩ :=
        h.inherits_of_below htabled hd hbase hb
      rw [hc] at habove
      cases habove
      exact ⟨interface, hinterface, contract, hcontract, hplain, rfl, c,
        List.mem_append_left _ (List.mem_of_find?_eq_some hc),
        (hinherits.append [t]).head (hstep hsome), own, hown, hhandle,
        .inl ⟨.of_fulfils hfulfils, own.isStatic_of_fulfils hfulfils⟩⟩
  · obtain ⟨interfaces, -, hlayout⟩ := exists_of_bind_ok hlayout
    obtain ⟨-, hmap⟩ := Prod.mk.inj (Except.ok.inj hlayout)
    unfold RealizedType.implementation?
    rw [← hmap]
    apply hinherited

theorem Settled.mapped_snoc
    (h : w.Settled) (htabled : Tabled w.session.types) (hmapped : Mapped w.session.types)
    (hlayout : w.layoutType t.id = .ok t) :
  Mapped (w.session.types ++ [t])
  := by
  obtain ⟨d, base, hd, hmirrors, hbase, hlayout⟩ := layoutType_ok hlayout
  constructor
  · intro t' ht'
    obtain ht' | ht' := List.mem_append.mp ht'
    · intro k m hm
      apply (hmapped.entries t' ht' k m hm).append
    · obtain rfl := List.mem_singleton.mp ht'
      apply h.takes_of_layout htabled hmapped hd hmirrors hbase hlayout
  · intro t' ht' hclass i hi
    obtain ht' | ht' := List.mem_append.mp ht'
    · obtain ⟨interface, hfound, hlinked⟩ := hmapped.linked t' ht' hclass i hi
      exact ⟨interface, find?_append_of_some hfound, hlinked⟩
    · obtain rfl := List.mem_singleton.mp ht'
      rw [layoutInterfaces] at hlayout
      rw [← hmirrors.handle, hclass, if_pos (beq_self_eq_true _)] at hlayout
      obtain ⟨interfaces, -, hlayout⟩ := exists_of_bind_ok hlayout
      obtain ⟨bases, -, hlayout⟩ := exists_of_bind_ok hlayout
      obtain ⟨map, hmap, hlayout⟩ := exists_of_bind_ok hlayout
      obtain ⟨rfl, rfl⟩ := Prod.mk.inj (Except.ok.inj hlayout)
      obtain ⟨interface, hfound⟩ := implementAll_realized hmap i hi
      refine ⟨interface, find?_append_of_some hfound, ?_⟩
      intro contract hcontract hplain own hown
      apply implementAll_linked hown hmap
      right
      exact ⟨i, hi, interface, hfound, contract, hcontract, rfl, hplain⟩

end Workspace

/-- All interface maps of a session hold what the types take. -/
theorem Project.mapped_after (verify : Bool) (history : List (Event ρ)) :
  Mapped ((empty verify).after history).session.types
  := by
  have hboth : Tabled ((empty verify).after history).session.types
      ∧ Mapped ((empty verify).after history).session.types := by
    apply realized_induction (Q := fun ts => Tabled ts ∧ Mapped ts)
    · exact ⟨⟨by simp, by simp⟩, ⟨by simp, by simp⟩⟩
    · rintro w new t hmeets hnew - hlayout ⟨htabled, hmapped⟩
      exact ⟨htabled.snoc hlayout,
        (settled_realizing hmeets hnew).mapped_snoc htabled hmapped hlayout⟩
  apply hboth.2

end ManagedCode
