import ManagedCode.Proofs.Assembly.Holders
import ManagedCode.Proofs.Assembly.Implementations
import ManagedCode.Proofs.Machine.Effect

/-!
# Calls of interface methods

A call of an interface method runs the method that the class of its receiver takes for it,
or what the class has put into the slot of that method.  The call site has been sealed for
the interface method.  It gets what it has been sealed for when interface maps conform,
which is the case exactly when the methods do that are linked to interface methods.
-/

namespace ManagedCode

variable {ρ : Type}

/-- The methods of the interfaces that a type implements. -/
def Session.interfaceMethods (s : Session) (t : RealizedType) : List RealizedMethod :=
  ((t.allInterfaces.filterMap s.realized?).filter (·.handle.kind.isInterface)).flatMap (·.methods)

/-- What classes that can be instantiated take for interface methods has the signatures of
these. -/
def Session.MapsConform (s : Session) : Prop :=
  ∀ t ∈ s.types, t.isInstantiable → ∀ contract ∈ s.interfaceMethods t,
    ∀ m ∈ t.implementation? contract.handle, ∃ own ∈ methodIn s.types m, own.Conforms contract

instance (m contract : RealizedMethod) : Decidable (m.Conforms contract) :=
  decidable_of_iff (m.genericParams.length = contract.genericParams.length
      ∧ m.paramTypes.map (m.renameFor contract) = contract.paramTypes
      ∧ m.renameFor contract m.returnType = contract.returnType)
    ⟨fun h => ⟨h.1, h.2.1, h.2.2⟩, fun h => ⟨h.arity, h.params, h.returnType⟩⟩

instance (s : Session) : Decidable s.MapsConform :=
  inferInstanceAs (Decidable (∀ t ∈ s.types, t.isInstantiable → _))

/-- The methods that such classes take because a class has linked them first to an interface
method have the signatures of these. -/
def Session.LinksConform (s : Session) : Prop :=
  ∀ t ∈ s.types, t.isInstantiable → ∀ contract ∈ s.interfaceMethods t,
    ∀ c own, Inherits s.types t c → c.linked? contract.handle = some own →
      t.implementation? contract.handle = some own.handle → own.Conforms contract

/-- A call by dispatch of an interface method on an object of such a class takes and leaves
what calls of the interface method are sealed for. -/
def Session.CallsFit (s : Session) : Prop :=
  ∀ t ∈ s.types, t.isInstantiable → ∀ contract ∈ s.interfaceMethods t,
    (t.implementation? contract.handle).isSome →
    ∀ (limit : Nat) (f : Frame) (i : Instruction) (typeArgs : List TypeRef) (r : ObjectRef)
      (request : Request),
      i.methodRef = .ok (contract.handle, typeArgs) → r.type = t.id →
      f.stack[contract.params.length]? = some (.object r) →
      (Surroundings.mk s limit).call f i true = .ok request →
        ∃ g target args typeArgs' resume, request = .invoke g target args typeArgs' resume
          ∧ f.Rewrites (contract.sig.callEffect .callvirt).pops 0 g
          ∧ resume = if (contract.sig.callEffect .callvirt).pushes = 0 then .dropResult
              else .pushResult

theorem mem_interfaceMethods_iff
    {s : Session} {t : RealizedType} {contract : RealizedMethod} :
  contract ∈ s.interfaceMethods t
    ↔ ∃ i ∈ t.allInterfaces, ∃ interface, s.realized? i = some interface
        ∧ interface.handle.kind.isInterface = true ∧ contract ∈ interface.methods
  := by
  simp only [Session.interfaceMethods, List.mem_flatMap, List.mem_filter, List.mem_filterMap]
  constructor
  · rintro ⟨interface, ⟨⟨i, hi, hrealized⟩, hkind⟩, hmem⟩
    exact ⟨i, hi, interface, hrealized, hkind, hmem⟩
  · rintro ⟨i, hi, interface, hrealized, hkind, hmem⟩
    exact ⟨interface, ⟨⟨i, hi, hrealized⟩, hkind⟩, hmem⟩

/-! ## Methods under their handles -/

theorem methodAt_ok_iff {s : Session} {m : MethodRef} {method : RealizedMethod} :
  s.methodAt m = .ok method ↔ methodIn s.types m = some method
  := by
  rw [Session.methodAt, Session.typeAt, Session.realized?, methodIn]
  cases s.types.find? (·.id == m.owner) with
  | none =>
      constructor
      · rintro ⟨⟩
      · rintro ⟨⟩
  | some t =>
      dsimp only [Option.bind, Bind.bind, Except.bind]
      cases t.method? m.index with
      | none =>
          constructor
          · rintro ⟨⟩
          · rintro ⟨⟩
      | some own =>
          constructor
          · rintro ⟨⟩
            rfl
          · rintro ⟨⟩
            rfl

/-- A method of a realized type is found under its handle. -/
theorem Project.Consistent.methodAt
    {p : Project} (h : p.Consistent) {t : RealizedType} (ht : t ∈ p.session.types)
    {method : RealizedMethod} (hmethod : method ∈ t.methods) :
  method.handle.owner = t.id ∧ p.session.methodAt method.handle = .ok method
  := by
  have hrealized := h.realized_of_mem ht
  obtain ⟨d, hd, hmethods⟩ := h.traced hrealized
  obtain ⟨i, hi⟩ := List.getElem?_of_mem hmethod
  have hsig : (TypeView.ofRealized t).methods[i]? = some method.sig := by
    change (t.methods.map (·.sig))[i]? = _
    rw [List.getElem?_map, hi]
    rfl
  rw [hmethods] at hsig
  change (d.methods.mapIdx _)[i]? = _ at hsig
  rw [List.getElem?_mapIdx] at hsig
  obtain ⟨m, -, heq⟩ := Option.map_eq_some_iff.mp hsig
  have hhandle : method.handle = ⟨t.id, i⟩ := by
    rw [← hd]
    exact (congrArg MethodSignature.handle heq).symm
  rw [hhandle, methodAt_ok_iff]
  refine ⟨rfl, ?_⟩
  change (p.session.realized? t.id).bind _ = _
  rw [hrealized]
  apply hi

/-! ## What interface methods are mapped to -/

namespace Project.Consistent

variable {p : Project} {t : RealizedType} {contract : RealizedMethod} {m : MethodRef}

theorem methodAt_interface (h : p.Consistent) (hcontract : contract ∈ p.session.interfaceMethods t) :
  p.session.methodAt contract.handle = .ok contract
    ∧ ∃ interface, p.session.realized? contract.handle.owner = some interface
        ∧ interface.handle.kind.isInterface = true
  := by
  obtain ⟨i, -, interface, hi, hkind, hmem⟩ := mem_interfaceMethods_iff.mp hcontract
  obtain ⟨howner, hmethod⟩ := h.methodAt (List.mem_of_find?_eq_some hi) hmem
  refine ⟨hmethod, interface, ?_, hkind⟩
  rw [howner]
  apply h.realized_of_mem (List.mem_of_find?_eq_some hi)

/-- What an interface method is mapped to has its signature or is linked to it.  The interface
method is the only one under its handle. -/
theorem implementation_cases
    (h : p.Consistent) (hmapped : Mapped p.session.types) (ht : t ∈ p.session.types)
    (hcontract : contract ∈ p.session.interfaceMethods t)
    (hm : t.implementation? contract.handle = some m) :
  contract.IsContract ∧ ∃ c own, c ∈ p.session.types ∧ Inherits p.session.types t c
    ∧ own ∈ c.methods ∧ own.handle = m ∧ p.session.methodAt m = .ok own
    ∧ (own.Conforms contract ∨ c.linked? contract.handle = some own)
  := by
  obtain ⟨interface, hinterface, contract', hmem, hplain, hhandle, c, hc, hinherits, own, hown,
    rfl, hsource⟩ := hmapped.entries t ht contract.handle m hm
  have hsame : contract' = contract := by
    have hfound := (h.methodAt hinterface hmem).2
    rw [hhandle, (h.methodAt_interface hcontract).1] at hfound
    exact (Except.ok.inj hfound).symm
  subst hsame
  exact ⟨hplain, c, own, hc, hinherits, hown, rfl, (h.methodAt hc hown).2,
    hsource.imp_left And.left⟩

/-- Interface maps conform exactly when linked methods do. -/
theorem mapsConform_iff
    (h : p.Consistent) (htabled : Tabled p.session.types) (hmapped : Mapped p.session.types) :
  p.session.MapsConform ↔ p.session.LinksConform
  := by
  constructor
  · intro hmaps t ht hinstantiable contract hcontract c own hinherits hlinked hm
    obtain ⟨own', hown', hconforms⟩ := hmaps t ht hinstantiable contract hcontract _ hm
    have hc := (htabled.size_le ht hinherits).1
    have hown := (h.methodAt hc (List.mem_of_find?_eq_some hlinked)).2
    rw [methodAt_ok_iff, hown'] at hown
    cases hown
    apply hconforms
  · intro hlinks t ht hinstantiable contract hcontract m hm
    obtain ⟨-, c, own, -, hinherits, -, rfl, hfound, hconforms | hlinked⟩ :=
      h.implementation_cases hmapped ht hcontract hm
    · exact ⟨own, methodAt_ok_iff.mp hfound, hconforms⟩
    · refine ⟨own, methodAt_ok_iff.mp hfound, ?_⟩
      apply hlinks t ht hinstantiable contract hcontract c own hinherits hlinked hm

end Project.Consistent

/-! ## Dispatch -/

theorem RealizedMethod.Conforms.returns
    {m contract : RealizedMethod} (h : m.Conforms contract) :
  m.returnType = .void ↔ contract.returnType = .void
  := by
  rw [← h.returnType]
  apply (TypeRef.substitute_eq_void_iff _ _ _).symm

namespace Project.Consistent

variable {p : Project} {t : RealizedType} {contract : RealizedMethod}

/-- What runs for a method that a type takes is the method, or what the type has put into
its slot. -/
theorem dispatch_interface
    (h : p.Consistent) (ht : t ∈ p.session.types) (hcontract : contract ∈ p.session.interfaceMethods t)
    {r : ObjectRef} (hr : r.type = t.id) {target : RealizedMethod}
    (hdispatch : p.session.dispatch (.object r) contract = .ok target) :
  ∃ m own, t.implementation? contract.handle = some m ∧ p.session.methodAt m = .ok own
    ∧ (target = own ∨ ∃ slot held, own.vtableSlot = some slot
        ∧ t.vtable.method? slot = some held ∧ p.session.methodAt held = .ok target)
  := by
  obtain ⟨-, interface, hinterface, hkind⟩ := h.methodAt_interface hcontract
  have htype : p.session.typeAt r.type = .ok t := by
    rw [Session.typeAt]
    rw [hr, h.realized_of_mem ht]
  have hdeclaring : p.session.typeAt contract.handle.owner = .ok interface := by
    rw [Session.typeAt]
    rw [hinterface]
  rw [Session.dispatch] at hdispatch
  dsimp only at hdispatch
  split at hdispatch
  · cases hdispatch
  obtain ⟨t', ht', hdispatch⟩ := exists_of_bind_ok hdispatch
  rw [htype] at ht'
  cases ht'
  obtain ⟨interface', hinterface', hdispatch⟩ := exists_of_bind_ok hdispatch
  rw [hdeclaring] at hinterface'
  cases hinterface'
  rw [if_pos hkind] at hdispatch
  split at hdispatch
  · next m hm =>
    obtain ⟨own, hown, hdispatch⟩ := exists_of_bind_ok hdispatch
    refine ⟨m, own, hm, hown, ?_⟩
    split at hdispatch
    · next held hheld =>
      obtain ⟨slot, hslot, hheld⟩ := Option.bind_eq_some_iff.mp hheld
      split at hdispatch
      · left
        cases hdispatch
        rfl
      · right
        exact ⟨slot, held, hslot, hheld, hdispatch⟩
    · left
      cases hdispatch
      rfl
  · obtain ⟨_, ⟨⟩, -⟩ := exists_of_bind_ok hdispatch

/-- What runs for an interface method returns a value exactly if the interface method does. -/
theorem dispatch_returns
    (h : p.Consistent) (hmapped : Mapped p.session.types) (hfilled : Filled p.session.types)
    (hmaps : p.session.MapsConform) (ht : t ∈ p.session.types)
    (hinstantiable : t.isInstantiable) (hcontract : contract ∈ p.session.interfaceMethods t)
    {r : ObjectRef} (hr : r.type = t.id) {target : RealizedMethod}
    (hdispatch : p.session.dispatch (.object r) contract = .ok target) :
  target.returnType = .void ↔ contract.returnType = .void
  := by
  obtain ⟨m, own, hm, hown, htarget⟩ := h.dispatch_interface ht hcontract hr hdispatch
  obtain ⟨-, c, own', -, hinherits, hmem, -, hown', -⟩ :=
    h.implementation_cases hmapped ht hcontract hm
  rw [hown] at hown'
  cases hown'
  obtain ⟨own', hown', hconforms⟩ := hmaps t ht hinstantiable contract hcontract m hm
  rw [methodAt_ok_iff, hown'] at hown
  cases hown
  rw [← hconforms.returns]
  obtain rfl | ⟨slot, held, hslot, hheld, htarget⟩ := htarget
  · rfl
  · obtain ⟨holder, hholder, hall⟩ := hfilled t ht slot held hheld
    rw [methodAt_ok_iff, hholder] at htarget
    cases htarget
    apply (hall c own hinherits hmem hslot).symm

/-- Calls of interface methods fit their sites when maps conform and slots are filled.  The receiver
lies below the arguments on the stack. -/
theorem callsFit
    (h : p.Consistent) (hmapped : Mapped p.session.types) (hfilled : Filled p.session.types)
    (hmaps : p.session.MapsConform) :
  p.session.CallsFit
  := by
  intro t ht hinstantiable contract hcontract hmapsome limit f i typeArgs r request hi hr
    hreceiver hcall
  obtain ⟨m, hm⟩ := Option.isSome_iff_exists.mp hmapsome
  have hstatic := (h.implementation_cases hmapped ht hcontract hm).1.2
  obtain ⟨⟨handle, typeArgs'⟩, hi', hcall⟩ := exists_of_bind_ok hcall
  rw [hi] at hi'
  cases hi'
  obtain ⟨contract', hcontract', hcall⟩ := exists_of_bind_ok hcall
  rw [(h.methodAt_interface hcontract).1] at hcontract'
  cases hcontract'
  obtain ⟨⟨args, g⟩, hpop, hcall⟩ := exists_of_bind_ok hcall
  obtain ⟨hg, -, hargs⟩ := (f.popMany_yields _).of_ok hpop
  have hpops : (contract.sig.callEffect .callvirt).pops = contract.params.length + 1 := by
    change contract.paramTypes.length + (if contract.isStatic then 0 else 1) = _
    simp [RealizedMethod.paramTypes, hstatic]
  dsimp only at hg hargs hcall
  rw [hstatic] at hg hargs hcall
  simp only [Bool.false_eq_true, if_false, if_true] at hg hargs hcall
  split at hcall
  · cases hcall
  · next receiver rest =>
    obtain ⟨target, htarget, hcall⟩ := exists_of_bind_ok hcall
    cases hcall
    have hsame : receiver = .object r := by
      have hfirst := congrArg List.head? hargs
      rw [List.head?_reverse, List.getLast?_take] at hfirst
      simpa [hreceiver] using hfirst
    subst hsame
    refine ⟨g, target, _, _, _, rfl, by rwa [hpops], ?_⟩
    have hreturns := h.dispatch_returns hmapped hfilled hmaps ht hinstantiable hcontract hr htarget
    change (if target.returnType = .void then _ else _)
      = if (if contract.returnType = .void then 0 else 1) = 0 then _ else _
    by_cases hvoid : contract.returnType = .void <;> simp [hreturns, hvoid]

end Project.Consistent

namespace Project

/-- A class takes for an interface method the first of its own methods that is linked to it.  The
interface maps of the classes that can be instantiated conform after a history exactly if the linked
methods do.  If in addition all links to base methods are in order throughout the history, calls of
interface methods take and leave what their sites are sealed for.  The history declares fewer than
`2 ^ 32 - 1` types, so that 32 bits tell their ids apart. -/
theorem interface_maps_of_history
    (verify : Bool) (history : List (Event ρ))
    (hnumbered : ((empty verify).after history).session.Numbered) :
  (∀ before, before <+: history → ((empty verify).after before).NumbersFit)
  ∧ (∀ t ∈ ((empty verify).after history).session.types, t.handle.kind = .classType →
      ∀ contract ∈ ((empty verify).after history).session.interfaceMethods t,
        contract.IsContract → ∀ own, t.linked? contract.handle = some own →
          t.implementation? contract.handle = some own.handle)
  ∧ (((empty verify).after history).session.MapsConform
      ↔ ((empty verify).after history).session.LinksConform)
  ∧ ((∀ before, before <+: history → ((empty verify).after before).Every Workspace.Linked) →
      ((empty verify).after history).session.MapsConform →
        ((empty verify).after history).session.CallsFit)
  := by
  have hconsistent := (consistent_empty verify).after history
  have hmapped := mapped_after verify history
  refine ⟨fun before => numbersFit_after verify hnumbered, ?_, ?_, ?_⟩
  · intro t ht hclass contract hcontract hplain own hown
    obtain ⟨i, hi, interface, hinterface, -, hmem⟩ := mem_interfaceMethods_iff.mp hcontract
    obtain ⟨interface', hfound, hlinked⟩ := hmapped.linked t ht hclass i hi
    change ((empty verify).after history).session.realized? i = some interface' at hfound
    rw [hinterface] at hfound
    cases hfound
    apply hlinked contract hmem hplain own hown
  · apply hconsistent.mapsConform_iff (tabled_after verify history) hmapped
  · intro hlinked
    apply hconsistent.callsFit hmapped (filled_after hlinked)

/-! ## A class with overloads -/

/-- An interface and a class that implements it. -/
def implementing : List (Event Unit) :=
  [ .openUnit "A",
    .change 0 (.declareType "I" .interfaceType {} none),
    .change 0 (.defineMethod ⟨1⟩ "F"
      { params := some [{ name := "x", type := .primitive .i32 }]
        returnType := some (.primitive .i32) } .minimal),
    .change 0 (.declareType "C" .classType
      { interfaces := [.defined ⟨⟨1⟩, .interfaceType⟩] } none)]

/-- The class defines the method of the interface. -/
def conforming : List (Event Unit) :=
  implementing ++
    [ .change 0 (.defineMethod ⟨2⟩ "F"
        { params := some [{ name := "x", type := .primitive .i32 }]
          returnType := some (.primitive .i32) } .minimal),
      .change 0 .finalize]

/-- The class defines another method of the name before that. -/
def overloading : List (Event Unit) :=
  implementing ++
    [ .change 0 (.defineMethod ⟨2⟩ "F"
        { params := some [{ name := "x", type := .string }], returnType := some .void } .minimal),
      .change 0 (.defineMethod ⟨2⟩ "F"
        { params := some [{ name := "x", type := .primitive .i32 }]
          returnType := some (.primitive .i32) } .minimal),
      .change 0 .finalize]

/-- Calls of the method of the interface fit when the class defines just that. -/
theorem callsFit_conforming :
  ((empty true).after conforming).session.CallsFit
  := by
  obtain ⟨-, -, -, hcalls⟩ := interface_maps_of_history true conforming (by decide +kernel)
  apply hcalls
  · apply linked_of_plain
    simp [conforming, implementing, Plain]
  · decide +kernel

/-- With the other method defined first, the class takes that one for the method of the
interface. -/
theorem not_mapsConform_overloading :
  ¬ ∀ history : List (Event Unit), ((empty true).after history).session.MapsConform
  := by
  intro hclaim
  have hmaps := hclaim overloading
  revert hmaps
  decide +kernel

end Project

end ManagedCode
