import ManagedCode.Proofs.Machine.Dispatch

/-!
# Virtual calls

Which method a virtual call of a method of a class runs.  It depends on the root of the method
alone: what runs is the method of that root in the most derived class that has one, the last
declared (`Project.runs_by_root`).  This takes that links lead to methods of classes: a method
of an interface has no slot, so that methods which are linked to one do not share a slot
either, and an interface becomes the base of a class when a reference calls it a class.
-/

namespace ManagedCode

open Relation

variable {p : Project} {verify : Bool}

/-- A virtual method of a class that is a type or one of its bases. -/
def HasVirtual (ts : List RealizedType) (t : RealizedType) (m : RealizedMethod) : Prop :=
  ∃ c, Inherits ts t c ∧ c.handle.kind = .classType ∧ m ∈ c.methods ∧ m.isVirtual = true

namespace Project

/-- Virtual methods run by their roots, and methods of one line of bases with different roots
have different slots. -/
structure RunsByRoot (p : Project) : Prop where
  runs : ∀ t ∈ p.session.types, ∀ m, HasVirtual p.session.types t m →
    ∃ root target, p.Root m.handle root ∧ p.Chosen p.session.types root t target
      ∧ ∀ r : ObjectRef, r.type = t.id → p.session.dispatch (.object r) m = .ok target
  alike : ∀ t ∈ p.session.types, ∀ m m' root, HasVirtual p.session.types t m →
    HasVirtual p.session.types t m' → p.Root m.handle root → p.Root m'.handle root →
      ∀ r : ObjectRef, r.type = t.id →
        p.session.dispatch (.object r) m = p.session.dispatch (.object r) m'
  apart : ∀ t ∈ p.session.types, ∀ m m' root root', HasVirtual p.session.types t m →
    HasVirtual p.session.types t m' → p.Root m.handle root → p.Root m'.handle root' →
      root ≠ root' → ∃ slot slot', m.vtableSlot = some slot ∧ m'.vtableSlot = some slot'
        ∧ slot ≠ slot'

/-! ## What fills a slot -/

section

variable {ts : List RealizedType} {t c : RealizedType} {m : RealizedMethod} {slot : Nat}

/-- A virtual method of a class has a slot. -/
theorem Arranged.exists_slot
    (h : p.Arranged ts c) (hclass : c.handle.kind = .classType) (hm : m ∈ c.methods)
    (hvirtual : m.isVirtual = true) :
  ∃ slot, m.vtableSlot = some slot
  := by
  obtain ⟨i, hi⟩ := List.getElem?_of_mem hm
  obtain ⟨d, -, -, hattributes, hproper, -⟩ := h.declared i m hi
  apply Option.isSome_iff_exists.mp
  rw [h.slotted m hm]
  refine ⟨hclass, hvirtual, ?_⟩
  rw [RealizedMethod.isVirtual, hattributes] at hvirtual
  rw [RealizedMethod.isStatic, hattributes]
  apply hproper.isVirtual hvirtual

/-- A type has a method for each slot of its bases, and that is what runs for all methods with
the slot. -/
theorem exists_filled
    (hlayered : Layered verify p.decl? p.session.types)
    (harranged : ∀ t ∈ p.session.types, p.Arranged p.session.types t) (ht : t ∈ p.session.types)
    (hc : Inherits p.session.types t c) (hm : m ∈ c.methods) (hslot : m.vtableSlot = some slot) :
  ∃ held, Holds p.session.types slot t held
    ∧ ∀ m' : RealizedMethod, m'.vtableSlot = some slot → p.session.filled t m' = .ok held
  := by
  have htabled := hlayered.tabled
  obtain ⟨hcmem, hsize⟩ := htabled.size_le ht hc
  have hlt : slot < t.vtable.size :=
    Nat.lt_of_lt_of_le (htabled.own c hcmem m hm slot hslot) hsize
  obtain ⟨held, hheld⟩ : ∃ held, t.vtable.method? slot = some held :=
    ⟨_, List.getElem?_eq_getElem hlt⟩
  obtain ⟨k, hk⟩ := List.getElem?_of_mem ht
  obtain ⟨method, hholds, hhandle⟩ := exists_holds hlayered harranged hk hheld
  refine ⟨method, hholds, ?_⟩
  obtain ⟨u, hu, hmethod, -⟩ := hholds.mem
  have humem := (htabled.size_le ht hu).1
  intro m' hslot'
  rw [Session.filled]
  rw [hslot', Option.bind_some, hheld]
  dsimp only
  rw [methodAt_ok_iff, ← hhandle]
  apply (harranged u humem).methodIn_handle hlayered humem hmethod

/-- A method of a class runs as the type of the object fills its slot. -/
theorem dispatch_filled
    (hlayered : Layered verify p.decl? p.session.types)
    (harranged : ∀ t ∈ p.session.types, p.Arranged p.session.types t) (ht : t ∈ p.session.types)
    (hc : Inherits p.session.types t c) (hclass : c.handle.kind = .classType)
    (hm : m ∈ c.methods) {r : ObjectRef} (hr : r.type = t.id) :
  p.session.dispatch (.object r) m = p.session.filled t m
  := by
  have hcmem := (hlayered.tabled.size_le ht hc).1
  obtain ⟨i, hi⟩ := List.getElem?_of_mem hm
  have howner : m.handle.owner = c.id := by rw [(harranged c hcmem).handle_eq hi]
  apply Session.dispatch_class
  · rw [hr]
    apply hlayered.find ht
  · rw [howner]
    apply hlayered.find hcmem
  · rw [hclass]
    rfl
  · rw [hr, howner, hlayered.reaches_iff ht]
    exact ⟨c, hc, .inl rfl⟩
  · rw [methodAt_ok_iff]
    apply (harranged c hcmem).methodIn_handle hlayered hcmem hm

end

/-! ## Virtual calls -/

section

variable {t : RealizedType} {m : RealizedMethod} {root : MethodRef}

/-- The root of a virtual method, and what runs for it. -/
theorem Linear.exists_chosen
    (h : p.Linear p.session.types) (ht : t ∈ p.session.types)
    (hm : HasVirtual p.session.types t m) :
  ∃ root target, p.Root m.handle root ∧ p.Chosen p.session.types root t target
    ∧ ∀ r : ObjectRef, r.type = t.id → p.session.dispatch (.object r) m = .ok target
  := by
  obtain ⟨c, hc, hclass, hmem, hvirtual⟩ := hm
  have hcmem := (h.layered.tabled.size_le ht hc).1
  obtain ⟨slot, hslot⟩ := (h.arranged c hcmem).exists_slot hclass hmem hvirtual
  obtain ⟨-, first, -, -, -, hroot⟩ := h.exists_root_above ht hc hmem hslot
  obtain ⟨held, hholds, hfilled⟩ := exists_filled h.layered h.arranged ht hc hmem hslot
  refine ⟨first.handle, held, hroot, ?_, ?_⟩
  · apply chosen_of_holds hholds
    intro c' m' hc' hm'
    apply slot_iff_root h ht hc hmem hslot hroot hc' hm'
  · intro r hr
    rw [dispatch_filled h.layered h.arranged ht hc hclass hmem hr, hfilled m hslot]

/-- Virtual methods have the same slot exactly if they have the same root. -/
theorem Linear.sameSlot_iff
    (h : p.Linear p.session.types) (ht : t ∈ p.session.types) {m' : RealizedMethod}
    (hm : HasVirtual p.session.types t m) (hm' : HasVirtual p.session.types t m')
    (hroot : p.Root m.handle root) :
  ∃ slot slot', m.vtableSlot = some slot ∧ m'.vtableSlot = some slot'
    ∧ (slot = slot' ↔ p.Root m'.handle root)
  := by
  obtain ⟨c, hc, hclass, hmem, hvirtual⟩ := hm
  obtain ⟨c', hc', hclass', hmem', hvirtual'⟩ := hm'
  have hslots : ∀ {c m}, Inherits p.session.types t c → c.handle.kind = .classType →
      m ∈ c.methods → m.isVirtual = true → ∃ slot, m.vtableSlot = some slot :=
    fun hc => (h.arranged _ (h.layered.tabled.size_le ht hc).1).exists_slot
  obtain ⟨slot, hslot⟩ := hslots hc hclass hmem hvirtual
  obtain ⟨slot', hslot'⟩ := hslots hc' hclass' hmem' hvirtual'
  refine ⟨slot, slot', hslot, hslot', ?_⟩
  rw [← slot_iff_root h ht hc hmem hslot hroot hc' hmem', hslot', Option.some.injEq]
  apply eq_comm

theorem Linear.runsByRoot (h : p.Linear p.session.types) : p.RunsByRoot := by
  constructor
  · intro t ht m hm
    apply h.exists_chosen ht hm
  · intro t ht m m' root hm hm' hroot hroot' r hr
    obtain ⟨slot, slot', hslot, hslot', hsame⟩ := h.sameSlot_iff ht hm hm' hroot
    obtain rfl := hsame.mpr hroot'
    obtain ⟨c, hc, hclass, hmem, -⟩ := hm
    obtain ⟨c', hc', hclass', hmem', -⟩ := hm'
    obtain ⟨held, -, hfilled⟩ := exists_filled h.layered h.arranged ht hc hmem hslot
    rw [dispatch_filled h.layered h.arranged ht hc hclass hmem hr,
      dispatch_filled h.layered h.arranged ht hc' hclass' hmem' hr, hfilled m hslot,
      hfilled m' hslot']
  · intro t ht m m' root root' hm hm' hroot hroot' hne
    obtain ⟨slot, slot', hslot, hslot', hsame⟩ := h.sameSlot_iff ht hm hm' hroot
    refine ⟨slot, slot', hslot, hslot', ?_⟩
    intro heq
    apply hne
    apply (hsame.mp heq).unique hroot'

end

/-- When all links of realized types lead to methods of classes among their bases, virtual methods
run by their roots.  The history declares fewer than `2 ^ 32 - 1` types, so that 32 bits tell their
ids apart. -/
theorem runs_by_root
    {ρ : Type} (verify : Bool) (history : List (HostEvent ρ))
    (hnumbered : ((empty verify).run history).session.Numbered)
    (hrise : ((empty verify).run history).LinksRise ((empty verify).run history).session.types)
    (hclasses :
      ((empty verify).run history).LinksToClasses ((empty verify).run history).session.types) :
  (∀ before, before <+: history → ((empty verify).run before).NumbersFit)
  ∧ ((empty verify).run history).RunsByRoot
  := by
  have hsound := (sound_empty verify).run history
  have hlayered := stacked_run verify history
  refine ⟨fun before => numbersFit_run verify hnumbered, ?_⟩
  apply Linear.runsByRoot
  constructor
  · apply hlayered
  · apply hsound.arranged hlayered
  · apply anchored_run
  · intro t ht
    apply hsound.class_of_base hlayered ht
  · apply hrise
  · apply hclasses

/-! ## Links that can be checked -/

theorem forall_linksTo_iff {x : TypeId} {P : MethodRef → Prop} :
  (∀ i b, p.LinksTo ⟨x, i⟩ b → P b)
    ↔ ∀ d ∈ p.decl? x, ∀ m ∈ d.methods, ∀ b ∈ m.baseSlot, P b
  := by
  constructor
  · intro h d hd m hm b hb
    obtain ⟨i, hi⟩ := List.getElem?_of_mem hm
    refine h i b ⟨m, ?_, hb⟩
    rw [methodDecl?]
    rw [hd]
    apply hi
  · rintro h i b ⟨m, hm, hb⟩
    obtain ⟨d, hd, hm⟩ := Option.bind_eq_some_iff.mp hm
    apply h d hd m (List.mem_of_getElem? hm) b hb

/-- Whether links lead to methods of base classes can be read off the lines of bases. -/
theorem Stacked.linksRise_iff (h : p.Stacked) :
  p.LinksRise p.session.types
    ↔ ∀ t ∈ p.session.types, ∀ d ∈ p.decl? t.id, ∀ m ∈ d.methods, ∀ b ∈ m.baseSlot,
        ∃ c ∈ (p.session.lineage t.id).types.tail, c.id = b.owner ∧ (c.method? b.index).isSome
  := by
  have hone : ∀ t ∈ p.session.types, ∀ b : MethodRef,
      (∃ c target, TransGen (RealizedBase p.session.types) t c ∧ c.id = b.owner
        ∧ c.method? b.index = some target)
      ↔ ∃ c ∈ (p.session.lineage t.id).types.tail, c.id = b.owner
        ∧ (c.method? b.index).isSome := by
    intro t ht b
    obtain ⟨rest, hrest, hmem⟩ := Layered.lineage h ht
    rw [hrest]
    simp [hmem, Option.isSome_iff_exists]
  apply forall₂_congr
  intro t ht
  refine Iff.trans ?_ forall_linksTo_iff
  apply forall₃_congr
  intro i b hlink
  apply hone t ht

theorem linksToClasses_iff {ts : List RealizedType} :
  p.LinksToClasses ts
    ↔ ∀ t ∈ ts, ∀ d ∈ p.decl? t.id, ∀ m ∈ d.methods, ∀ b ∈ m.baseSlot, ∀ c ∈ ts,
        c.id = b.owner → c.handle.kind = .classType
  := by
  rw [LinksToClasses]
  apply forall₂_congr
  intro t ht
  apply forall_linksTo_iff

/-- The classes of `overriding`, with nothing else happening before they are realized. -/
def overridden : List (HostEvent Unit) :=
  (overriding ++ [Event.change 0 .finalize]).map .build

/-- On an object of the class that overrides it, the method of the base class runs as the class
has overridden it. -/
theorem runs_overridden :
  ((empty true).run overridden).RunsByRoot
    ∧ (((empty true).run overridden).session.methodAt ⟨⟨1⟩, 0⟩
        >>= fun m => ((empty true).run overridden).session.dispatch (.object ⟨0, ⟨3⟩⟩) m).toOption.map
          (·.handle)
      = some ⟨⟨3⟩, 0⟩
  := by
  constructor
  · refine (runs_by_root true overridden (by decide +kernel) ?_ ?_).2
    · rw [(stacked_run true overridden).linksRise_iff]
      decide +kernel
    · rw [linksToClasses_iff]
      decide +kernel
  · decide +kernel

/-- Two classes with an interface as their base, which a reference calls a class.  Both
override the method of the interface, and then one of them becomes the base of the other. -/
def misnamed : List (HostEvent Unit) :=
  [ .build (.openUnit "A"),
    .build (.change 0 (.declareType "I" .interfaceType {} none)),
    .build (.change 0 (.defineMethod ⟨1⟩ "F" { returnType := some (.primitive .i32) } .minimal)),
    .build (.change 0
      (.declareType "C" .classType { base := some (.defined ⟨⟨1⟩, .classType⟩) } none)),
    .build (.change 0 (.defineMethod ⟨2⟩ "F" {} .minimal)),
    .build (.change 0
      (.declareType "D" .classType { base := some (.defined ⟨⟨1⟩, .classType⟩) } none)),
    .build (.change 0 (.defineMethod ⟨3⟩ "F" {} .minimal)),
    .build (.change 0 (.setBase ⟨3⟩ (.defined ⟨⟨2⟩, .classType⟩))),
    .build (.change 0 .finalize)]

/-- Then all links lead to methods of bases, but the two classes have their methods in
different slots, and on an object of the derived one the method of the other runs. -/
theorem not_runs_by_root :
  ¬ ∀ history : List (HostEvent Unit),
      ((empty true).run history).LinksRise ((empty true).run history).session.types →
        ((empty true).run history).RunsByRoot
  := by
  intro hclaim
  have hrise : ((empty true).run misnamed).LinksRise
      ((empty true).run misnamed).session.types := by
    rw [(stacked_run true misnamed).linksRise_iff]
    decide +kernel
  have hruns := (hclaim misnamed hrise).runs
  have hlinks : ∀ {m b : MethodRef}, ((empty true).run misnamed).LinksTo m b
      ↔ (((empty true).run misnamed).methodDecl? m).bind (·.baseSlot) = some b := by
    intro m b
    rw [Option.bind_eq_some_iff]
    exact Iff.rfl
  have hroot : ∀ {m : MethodRef}, ((empty true).run misnamed).LinksTo m ⟨⟨1⟩, 0⟩ →
      ((empty true).run misnamed).Root m ⟨⟨1⟩, 0⟩ := by
    intro m hlink
    refine ⟨.single hlink, ?_⟩
    intro b
    rw [hlinks, show (((empty true).run misnamed).methodDecl? ⟨⟨1⟩, 0⟩).bind (·.baseSlot) = none
      by decide +kernel]
    simp
  obtain ⟨c, hc, d, hd, m, hm, own, hown, hbase, hclass, hvirtual, hhandle, hownhandle, hmethods,
      hdispatch⟩ : ∃ c ∈ ((empty true).run misnamed).session.types,
      ∃ d ∈ ((empty true).run misnamed).session.types, ∃ m ∈ c.methods, ∃ own ∈ d.methods,
        d.base = some c.id ∧ c.handle.kind = .classType ∧ m.isVirtual = true
        ∧ m.handle = ⟨⟨2⟩, 0⟩ ∧ own.handle = ⟨⟨3⟩, 0⟩ ∧ (∀ m ∈ d.methods, m.handle ≠ ⟨⟨2⟩, 0⟩)
        ∧ (((empty true).run misnamed).session.dispatch (.object ⟨0, d.id⟩) m).toOption.map
            (·.handle) = some ⟨⟨2⟩, 0⟩ := by
    decide +kernel
  have hstep : RealizedBase ((empty true).run misnamed).session.types d c :=
    ⟨c.id, hbase, (stacked_run true misnamed).find hc⟩
  obtain ⟨root, target, hmroot, hchosen, hdispatches⟩ :=
    hruns d hd m ⟨c, .single hstep, hclass, hm, hvirtual⟩
  obtain rfl := hmroot.unique (hroot (hlinks.mpr (by rw [hhandle]; decide +kernel)))
  rw [hdispatches _ rfl] at hdispatch
  have htarget : target.handle = ⟨⟨2⟩, 0⟩ := Option.some.inj hdispatch
  cases hchosen with
  | own hall _ _ =>
      apply hmethods target _ htarget
      rw [hall]
      simp
  | inherited hnone _ _ =>
      apply hnone own hown
      apply hroot (hlinks.mpr (by rw [hownhandle]; decide +kernel))

end Project

end ManagedCode
