import ManagedCode.Proofs.Assembly.Slots

/-!
# Methods in slots

While links are in order, the method that a table holds in a slot returns a value exactly
if the methods do that have been given the slot by the type of the table or its bases.
So the caller of a method with a slot gets a value from whatever is in the slot when it
would get one from the method itself.
-/

namespace ManagedCode

open Relation

variable {ρ : Type}

/-- Renaming generic parameters makes no type a missing one. -/
theorem TypeRef.substitute_eq_void_iff (t : TypeRef) (params names : List String) :
  t.substitute params (names.map .generic) = .void ↔ t = .void
  := by
  cases t with
  | generic name =>
      rw [TypeRef.substitute]
      cases hargument : TypeRef.argumentFor params (names.map .generic) name with
      | none => rfl
      | some argument =>
          obtain ⟨i, -, hi⟩ := Option.bind_eq_some_iff.mp hargument
          rw [List.getElem?_map] at hi
          obtain ⟨name', -, rfl⟩ := Option.map_eq_some_iff.mp hi
          simp
  | _ => simp [TypeRef.substitute]

theorem MethodDecl.SameTypes.returns
    {m : MethodDecl} {sig : MethodSignature} (h : m.SameTypes sig) :
  m.returnType = .void ↔ sig.returnType = .void
  := by
  rw [h.returnType]
  apply TypeRef.substitute_eq_void_iff

/-- The method of a realized type under a handle. -/
def methodIn (ts : List RealizedType) (m : MethodRef) : Option RealizedMethod :=
  (ts.find? (·.id == m.owner)).bind (·.method? m.index)

theorem methodIn_append
    {ts : List RealizedType} {m : MethodRef} {method : RealizedMethod}
    (h : methodIn ts m = some method) (new : List RealizedType) :
  methodIn (ts ++ new) m = some method
  := by
  obtain ⟨t, ht, hmethod⟩ := Option.bind_eq_some_iff.mp h
  rw [methodIn]
  rw [find?_append_of_some ht, Option.bind_some, hmethod]

/-- Each slot of a table holds a method that returns a value exactly if the methods do to
which the type or its bases have given the slot. -/
def Filled (ts : List RealizedType) : Prop :=
  ∀ t ∈ ts, ∀ slot m, t.vtable.method? slot = some m → ∃ holder, methodIn ts m = some holder
    ∧ ∀ c method, Inherits ts t c → method ∈ c.methods → method.vtableSlot = some slot →
      (method.returnType = .void ↔ holder.returnType = .void)

namespace Workspace

variable {w : Workspace} {d : TypeDecl} {base : Option RealizedType}

/-- A unit sees a realized method with the signature that it was realized with. -/
theorem Settled.methodSignature_of_realized
    (h : w.Settled) {m : MethodRef} {method : RealizedMethod}
    (hmethod : methodIn w.session.types m = some method) :
  w.methodSignature m = .ok method.sig
  := by
  obtain ⟨t, ht, hmethod⟩ := Option.bind_eq_some_iff.mp hmethod
  have hview : ∃ s, w.view? m.owner = some s ∧ s.methods = (TypeView.ofRealized t).methods := by
    cases hd : w.assembly.decl? m.owner with
    | none =>
        rw [view?_of_no_decl hd]
        change w.session.realized? m.owner = some t at ht
        rw [ht]
        exact ⟨_, rfl, rfl⟩
    | some d =>
        refine ⟨_, view?_of_decl hd, ?_⟩
        cases hstate : d.state with
        | building =>
            have hid : t.id = m.owner := by simpa using List.find?_some ht
            cases h.not_realized hd hstate t (List.mem_of_find?_eq_some ht) hid
        | realized =>
            obtain ⟨t', ht', hmirrors⟩ := h.mirrored hd hstate
            change w.session.types.find? _ = some t' at ht'
            rw [ht] at ht'
            cases ht'
            rw [hmirrors.methods]
  obtain ⟨s, hs, hmethods⟩ := hview
  rw [methodSignature_ok_iff]
  refine ⟨s, hs, ?_⟩
  rw [hmethods]
  change (t.methods.map (·.sig))[m.index]? = _
  rw [List.getElem?_map]
  change (t.method? m.index).map _ = _
  rw [hmethod]
  rfl

/-- A method of a type that is laid out, or of the bases of that type. -/
def Slotted (w : Workspace) (base : Option RealizedType) (own : List RealizedMethod)
    (method : RealizedMethod) : Prop :=
  method ∈ own
  ∨ ∃ inherited c, base = some inherited ∧ Inherits w.session.types inherited c
      ∧ method ∈ c.methods

/-- While the methods of a type are laid out, each slot holds one of them or a realized
method, and it returns a value exactly if the methods do that have been given the slot. -/
structure Fills (w : Workspace) (d : TypeDecl) (base : Option RealizedType) (l : MethodLayout) :
    Prop where
  known : ∀ slot m, l.vtable.method? slot = some m →
    (m.owner = d.id ∧ m.index < l.methods.length) ∨ (methodIn w.session.types m).isSome
  returns : ∀ slot m, l.vtable.method? slot = some m → ∃ sig, w.methodSignature m = .ok sig
    ∧ ∀ method, w.Slotted base l.methods method → method.vtableSlot = some slot →
      (method.returnType = .void ↔ sig.returnType = .void)
  bound : ∀ method, w.Slotted base l.methods method → ∀ slot, method.vtableSlot = some slot →
    slot < l.vtable.size

theorem slotted_snoc
    {own : List RealizedMethod} {last method : RealizedMethod}
    (h : w.Slotted base (own ++ [last]) method) :
  method = last ∨ w.Slotted base own method
  := by
  obtain hown | hbase := h
  · obtain hown | hlast := List.mem_append.mp hown
    · right; left
      apply hown
    · left
      apply List.mem_singleton.mp hlast
  · right; right
    apply hbase

/-- The table of the base. -/
theorem Settled.fills_base
    (h : w.Settled) (htabled : Tabled w.session.types) (hfilled : Filled w.session.types)
    (hbase : w.layoutBase d = .ok base) :
  w.Fills d base ⟨[], (base.map (·.vtable)).getD {}, none⟩
  := by
  cases base with
  | none =>
      constructor
      · rintro slot m ⟨⟩
      · rintro slot m ⟨⟩
      · rintro method (⟨⟨⟩⟩ | ⟨_, _, ⟨⟩, -⟩)
  | some inherited =>
      have hmem : inherited ∈ w.session.types :=
        List.mem_of_find?_eq_some (layoutBase_some hbase)
      constructor
      · intro slot m hm
        right
        obtain ⟨holder, hholder, -⟩ := hfilled inherited hmem slot m hm
        rw [hholder]
        rfl
      · intro slot m hm
        obtain ⟨holder, hholder, hall⟩ := hfilled inherited hmem slot m hm
        refine ⟨holder.sig, h.methodSignature_of_realized hholder, ?_⟩
        rintro method (⟨⟨⟩⟩ | ⟨_, c, ⟨⟩, hinherits, hmethod⟩)
        apply hall c method hinherits hmethod
      · rintro method (⟨⟨⟩⟩ | ⟨_, c, ⟨⟩, hinherits, hmethod⟩) slot hslot
        obtain ⟨hc, hsize⟩ := htabled.size_le hmem hinherits
        apply Nat.lt_of_lt_of_le (htabled.own c hc method hmethod slot hslot) hsize

/-- The methods that have been given the slot of a method whose link is in order return values
exactly if it does.  A new slot has not been given to any method.  An overridden method has the slot
as well, so that both agree with what it holds. -/
theorem Fills.agrees
    (h : w.Settled) (htabled : Tabled w.session.types) (hlinked : w.Linked)
    (hd : w.assembly.decl? d.id = some d) (hbase : w.layoutBase d = .ok base)
    {l : MethodLayout} (hfills : w.Fills d base l) {m : MethodDecl} (hm : m ∈ d.methods) {slot : Nat}
    (hslot : slot = l.vtable.size ∨ w.inheritedSlot? m = some slot ∧ slot < l.vtable.size)
    {method : RealizedMethod} (hmethod : w.Slotted base l.methods method)
    (hgiven : method.vtableSlot = some slot) :
  method.returnType = .void ↔ m.returnType = .void
  := by
  obtain rfl | ⟨hinherited, hlt⟩ := hslot
  · cases Nat.lt_irrefl _ (hfills.bound method hmethod _ hgiven)
  · obtain ⟨b, hb⟩ := exists_baseSlot hinherited
    obtain ⟨hbelow, sig, hsig, -, htypes⟩ := hlinked d.id m b ⟨d, hd, hm, hb⟩
    obtain ⟨inherited, above, overridden, rfl, habove, hinherits, hoverridden, hits, -⟩ :=
      h.inheritedSlot_linked htabled hd hbase hb hbelow hinherited
    have hfound : methodIn w.session.types b = some overridden := by
      change (w.session.realized? b.owner).bind _ = _
      rw [habove, Option.bind_some, hoverridden]
    rw [h.methodSignature_of_realized hfound] at hsig
    cases hsig
    obtain ⟨held, hheld⟩ : ∃ held, l.vtable.method? slot = some held :=
      ⟨_, List.getElem?_eq_getElem hlt⟩
    obtain ⟨sig, -, hall⟩ := hfills.returns slot held hheld
    have hoverridden : w.Slotted (some inherited) l.methods overridden :=
      .inr ⟨inherited, above, rfl, hinherits, List.mem_of_getElem? hoverridden⟩
    calc method.returnType = .void
        ↔ sig.returnType = .void := hall method hmethod hgiven
      _ ↔ overridden.returnType = .void := (hall overridden hoverridden hits).symm
      _ ↔ m.returnType = .void := htypes.returns.symm

/-- A method that gets no slot. -/
theorem Fills.unplaced
    {l l' : MethodLayout} {last : RealizedMethod} (h : w.Fills d base l)
    (hmethods : l'.methods = l.methods ++ [last]) (hnone : last.vtableSlot = none)
    (hsame : l'.vtable = l.vtable) :
  w.Fills d base l'
  := by
  have hlength : l'.methods.length = l.methods.length + 1 := by simp [hmethods]
  have hold : ∀ method slot, w.Slotted base l'.methods method → method.vtableSlot = some slot →
      w.Slotted base l.methods method := by
    intro method slot hmethod hgiven
    rw [hmethods] at hmethod
    obtain rfl | hmethod := slotted_snoc hmethod
    · rw [hnone] at hgiven
      cases hgiven
    · apply hmethod
  constructor
  · intro slot m hm
    rw [hsame] at hm
    obtain ⟨howner, hindex⟩ | hknown := h.known slot m hm
    · left
      exact ⟨howner, by omega⟩
    · right
      apply hknown
  · intro slot m hm
    rw [hsame] at hm
    obtain ⟨sig, hsig, hall⟩ := h.returns slot m hm
    refine ⟨sig, hsig, fun method hmethod hgiven => ?_⟩
    apply hall method (hold method slot hmethod hgiven) hgiven
  · intro method hmethod slot hgiven
    rw [hsame]
    apply h.bound method (hold method slot hmethod hgiven) slot hgiven

/-- A method that is put into a slot of methods that return values exactly if it does. -/
theorem Fills.placed
    {l l' : MethodLayout} {last : RealizedMethod} (h : w.Fills d base l)
    (hmethods : l'.methods = l.methods ++ [last]) {slot : Nat}
    (hslot : last.vtableSlot = some slot)
    (hputs : Puts slot (d.methodRef l.methods.length) l.vtable l'.vtable)
    {sig : MethodSignature} (hsig : w.methodSignature (d.methodRef l.methods.length) = .ok sig)
    (hreturn : last.returnType = sig.returnType)
    (hagrees : ∀ method, w.Slotted base l.methods method → method.vtableSlot = some slot →
      (method.returnType = .void ↔ sig.returnType = .void)) :
  w.Fills d base l'
  := by
  have hlength : l'.methods.length = l.methods.length + 1 := by simp [hmethods]
  constructor
  · intro other m hm
    by_cases hother : other = slot
    · left
      subst hother
      rw [hputs.held] at hm
      cases hm
      exact ⟨rfl, by simp [TypeDecl.methodRef, hlength]⟩
    · rw [hputs.kept other hother] at hm
      obtain ⟨howner, hindex⟩ | hknown := h.known other m hm
      · left
        exact ⟨howner, by omega⟩
      · right
        apply hknown
  · intro other m hm
    rw [hmethods]
    by_cases hother : other = slot
    · subst hother
      rw [hputs.held] at hm
      cases hm
      refine ⟨sig, hsig, fun method hmethod hgiven => ?_⟩
      obtain rfl | hmethod := slotted_snoc hmethod
      · rw [hreturn]
      · apply hagrees method hmethod hgiven
    · rw [hputs.kept other hother] at hm
      obtain ⟨sig', hsig', hall⟩ := h.returns other m hm
      refine ⟨sig', hsig', fun method hmethod hgiven => ?_⟩
      obtain rfl | hmethod := slotted_snoc hmethod
      · rw [hslot] at hgiven
        cases hgiven
        cases hother rfl
      · apply hall method hmethod hgiven
  · intro method hmethod other hgiven
    rw [hmethods] at hmethod
    obtain rfl | hmethod := slotted_snoc hmethod
    · rw [hslot] at hgiven
      cases hgiven
      apply hputs.lt_size
    · apply Nat.lt_of_lt_of_le (h.bound method hmethod other hgiven) hputs.size

theorem methodSignature_own
    (hd : w.assembly.decl? d.id = some d) {i : Nat} {m : MethodDecl} (hm : d.methods[i]? = some m) :
  w.methodSignature (d.methodRef i) = .ok (m.sig (d.methodRef i))
  := by
  rw [methodSignature_ok_iff]
  refine ⟨_, view?_of_decl hd, ?_⟩
  change (d.methods.mapIdx _)[i]? = _
  rw [List.getElem?_mapIdx, hm]
  rfl

theorem Fills.layoutMethods
    (h : w.Settled) (htabled : Tabled w.session.types) (hlinked : w.Linked)
    (hd : w.assembly.decl? d.id = some d) (hbase : w.layoutBase d = .ok base)
    {ms done : List MethodDecl} {l l' : MethodLayout} (hms : d.methods = done ++ ms)
    (hlength : l.methods.length = done.length) (hfills : w.Fills d base l)
    (hlayout : ms.foldlM (w.layoutMethod d) l = .ok l') :
  w.Fills d base l'
  := by
  induction ms generalizing l done with
  | nil =>
      cases hlayout
      apply hfills
  | cons m ms ih =>
      rw [List.foldlM_cons] at hlayout
      obtain ⟨l₁, hone, hrest⟩ := exists_of_bind_ok hlayout
      obtain ⟨last, hmethods, hreturn, hslot⟩ := layoutMethod_slot hone
      have hm : d.methods[l.methods.length]? = some m := by simp [hms, hlength]
      have hrestms : d.methods = (done ++ [m]) ++ ms := by simp [hms]
      apply ih hrestms (by simp [hmethods, hlength]) _ hrest
      obtain ⟨hnone, hsame⟩ | ⟨slot, hslot, hputs, hold⟩ := hslot
      · apply hfills.unplaced hmethods hnone hsame
      · apply hfills.placed hmethods hslot hputs (methodSignature_own hd hm) hreturn
        intro method hmethod hgiven
        apply hfills.agrees h htabled hlinked hd hbase (List.mem_of_getElem? hm) hold hmethod hgiven

/-- The bases of a type that has been added are those of its base. -/
theorem inherits_last
    (htabled : Tabled w.session.types) {t c : RealizedType} (hbase : w.layoutBase d = .ok base)
    (hid : t.base = base.map (·.id)) (hinherits : Inherits (w.session.types ++ [t]) t c) :
  c = t ∨ ∃ inherited, base = some inherited ∧ Inherits w.session.types inherited c
  := by
  obtain rfl | ⟨b, ⟨x, hx, hb⟩, hpath⟩ := hinherits.cases_head
  · left
    rfl
  · right
    rw [hid] at hx
    obtain ⟨inherited, rfl, rfl⟩ := Option.map_eq_some_iff.mp hx
    have hrealized := layoutBase_some hbase
    have hsame : b = inherited := by
      rw [find?_append_of_some hrealized] at hb
      exact (Option.some.inj hb).symm
    subst hsame
    exact ⟨b, rfl, htabled.inherits_of_append (List.mem_of_find?_eq_some hrealized) hpath⟩

/-- The slots of realized types stay filled when one more type is laid out while links are in
order.  A slot of the new type holds one of its own methods, or a method of a type before it. -/
theorem Settled.filled_snoc
    (h : w.Settled) (htabled : Tabled w.session.types) (hfilled : Filled w.session.types)
    (hlinked : w.Linked) {t : RealizedType} (hfresh : ∀ t' ∈ w.session.types, t'.id ≠ t.id)
    (hlayout : w.layoutType t.id = .ok t) :
  Filled (w.session.types ++ [t])
  := by
  intro t' ht' slot m hm
  obtain ht' | ht' := List.mem_append.mp ht'
  · obtain ⟨holder, hholder, hall⟩ := hfilled t' ht' slot m hm
    refine ⟨holder, methodIn_append hholder _, fun c method hinherits => ?_⟩
    apply hall c method (htabled.inherits_of_append ht' hinherits)
  · obtain rfl := List.mem_singleton.mp ht'
    obtain ⟨d, base, l, hd, hbase, hl, hmethods, hvtable, hid⟩ := layoutType_methods hlayout
    obtain ⟨d', -, hd', hmirrors, -⟩ := layoutType_ok hlayout
    rw [hd] at hd'
    cases hd'
    have hsame : t'.id = d.id := congrArg DefinedType.id hmirrors.handle
    rw [hsame] at hd
    have hfills : w.Fills d base l :=
      (h.fills_base htabled hfilled hbase).layoutMethods h htabled hlinked hd hbase
        (List.nil_append d.methods).symm rfl hl
    rw [hvtable] at hm
    obtain ⟨sig, hsig, hall⟩ := hfills.returns slot m hm
    have hslotted : ∀ c method, Inherits (w.session.types ++ [t']) t' c → method ∈ c.methods →
        w.Slotted base l.methods method := by
      intro c method hinherits hmethod
      obtain rfl | ⟨inherited, rfl, hinherits⟩ := inherits_last htabled hbase hid hinherits
      · left
        rwa [← hmethods]
      · right
        exact ⟨inherited, c, rfl, hinherits, hmethod⟩
    obtain ⟨howner, hindex⟩ | hknown := hfills.known slot m hm
    · rw [← hmethods] at hindex
      have hfind : (w.session.types ++ [t']).find? (·.id == m.owner) = some t' := by
        rw [List.find?_append, List.find?_eq_none.mpr (by simpa [howner, ← hsame] using hfresh)]
        simp [howner, hsame]
      refine ⟨t'.methods[m.index], ?_, fun c method hinherits hmethod hgiven => ?_⟩
      · rw [methodIn]
        rw [hfind, Option.bind_some]
        apply List.getElem?_eq_getElem hindex
      · rw [hall method (hslotted c method hinherits hmethod) hgiven]
        obtain ⟨s, hs, hlookup⟩ := methodSignature_ok_iff.mp hsig
        rw [howner, view?_of_decl hd] at hs
        cases hs
        rw [← hmirrors.methods] at hlookup
        change (t'.methods.map (·.sig))[m.index]? = some sig at hlookup
        rw [List.getElem?_map, List.getElem?_eq_getElem hindex] at hlookup
        cases hlookup
        rfl
    · obtain ⟨holder, hholder⟩ := Option.isSome_iff_exists.mp hknown
      refine ⟨holder, methodIn_append hholder _, fun c method hinherits hmethod hgiven => ?_⟩
      rw [hall method (hslotted c method hinherits hmethod) hgiven]
      rw [h.methodSignature_of_realized hholder] at hsig
      cases hsig
      rfl

/-- Links that are in order stay so while a unit is finalized. -/
theorem Linked.realizing (h : w.Linked) (new : List RealizedType) : (w.realizing new).Linked := by
  intro c m b hlink
  apply (h c m b (links_realizing new hlink)).widen (realizing_widens w new)

end Workspace

/-- While all links are in order, all tables of a session are filled with methods that
return values as expected. -/
theorem Project.filled_after
    {verify : Bool} {history : List (Event ρ)}
    (hlinked : ∀ before, before <+: history →
      ((empty verify).after before).Every Workspace.Linked) :
  Filled ((empty verify).after history).session.types
  := by
  have hboth : Tabled ((empty verify).after history).session.types
      ∧ Filled ((empty verify).after history).session.types := by
    apply realized_induction (Q := fun ts => Tabled ts ∧ Filled ts)
    · exact ⟨⟨by simp, by simp⟩, by simp [Filled]⟩
    · rintro w new t hmeets hnew hfresh hlayout ⟨htabled, hfilled⟩
      refine ⟨htabled.snoc hlayout, ?_⟩
      apply (settled_realizing hmeets hnew).filled_snoc htabled hfilled _ hfresh hlayout
      obtain ⟨before, i, a, hbefore, ha, rfl⟩ := hmeets
      apply Workspace.Linked.realizing
      apply hlinked before hbefore i a ha
  apply hboth.2

end ManagedCode
