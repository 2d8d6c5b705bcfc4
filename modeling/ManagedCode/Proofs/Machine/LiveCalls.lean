import ManagedCode.Machine.Host
import ManagedCode.Proofs.Assembly.Contracts
import ManagedCode.Proofs.Machine.VirtualCalls

/-!
# Calls on live objects

An object that a machine has made is of a class that can be instantiated.  In a session that
verifies implementations, a call by dispatch on such an object finds a method with a body for
each method of a type that its class derives from (`Project.calls_on_live_objects`).  References
have to name types by their kinds: what they call a class gets onto lines of bases, and what
they call an interface is looked up in interface maps.
-/

namespace ManagedCode

open Relation

variable {ρ : Type}

/-- A call has found no method, or none that can run. -/
def Fault.IsUnresolved : Fault → Prop
  | .missingMember .. | .invalidCast .. | .missingBody _ => True
  | _ => False

/-- A method that a call can run. -/
structure RealizedMethod.Runnable (m : RealizedMethod) : Prop where
  concrete : m.isAbstract = false
  body : m.body.isSome

/-- A session lets machines make an object. -/
def Session.Makes (s : Session) (r : ObjectRef) : Prop :=
  ∃ t, s.realized? r.type = some t ∧ t.isInstantiable

/-- An execution is at a virtual call of a method on an object. -/
def Execution.CallsOn (e : Execution) (m : RealizedMethod) (r : ObjectRef) : Prop :=
  ∃ f callers i typeArgs, e.frames = f :: callers ∧ f.body.instructions[f.ip]? = some i
    ∧ i.opcode = .callvirt ∧ i.methodRef = .ok (m.handle, typeArgs)
    ∧ f.stack[m.params.length]? = some (.object r)

/-- Calls of all methods of types that the class of an object derives from find methods that
can run, and virtual calls of them on the object run these. -/
structure Session.Serves (s : Session) (r : ObjectRef) : Prop where
  dispatch : ∀ u ∈ s.types, ∀ m ∈ u.methods, m.IsContract → s.reaches r.type u.id = true →
    ∃ target, s.dispatch (.object r) m = .ok target ∧ target.Runnable
  step : ∀ u ∈ s.types, ∀ m ∈ u.methods, m.IsContract → s.reaches r.type u.id = true →
    ∀ e : Execution, e.CallsOn m r → ∀ machine heap fault,
      e.step s = .finished machine heap (.error fault) → ¬ fault.IsUnresolved

/-! ## Objects -/

/-- The objects that hosts make. -/
theorem Host.makeObject_makes
    {s : Session} {t : RealizedType} {host host' : HostState} {v : Value}
    (ht : s.realized? t.id = some t) (h : (makeObject s t).exec host = (.ok v, host')) :
  ∃ r, v = .object r ∧ s.Makes r
  := by
  rw [makeObject] at h
  split at h
  · cases h
  · next hinstantiable =>
    obtain ⟨⟨⟩, host₁, -, h⟩ := exists_of_exec_bind_ok h
    cases h
    exact ⟨_, rfl, t, ht, by simpa using hinstantiable⟩

/-! ## Virtual calls -/

section

variable {s : Session} {m target : RealizedMethod} {r : ObjectRef} {typeArgs : List TypeRef}

/-- A virtual call on an object asks for what is dispatched. -/
theorem Surroundings.call_dispatched
    (limit : Nat) {f : Frame} {i : Instruction} (hi : i.methodRef = .ok (m.handle, typeArgs))
    (hm : s.methodAt m.handle = .ok m) (hstatic : m.isStatic = false)
    (hreceiver : f.stack[m.params.length]? = some (.object r))
    (hdispatch : s.dispatch (.object r) m = .ok target) :
  ∃ g args, (Surroundings.mk s limit).call f i true
    = .ok (.invoke g target args (typeArgs.map f.resolve) (resumeFor target))
  := by
  have hlength : ¬ f.stack.length < m.params.length + 1 := by
    have := (List.getElem?_eq_some_iff.mp hreceiver).1
    omega
  have hargs : (f.stack.take (m.params.length + 1)).reverse
      = .object r :: (f.stack.take m.params.length).reverse := by
    rw [List.take_add_one, hreceiver]
    simp
  refine ⟨{ f with stack := f.stack.drop (m.params.length + 1) },
    .object r :: (f.stack.take m.params.length).reverse, ?_⟩
  rw [call]
  rw [hi]
  change (s.methodAt m.handle >>= _) = _
  rw [hm]
  change (f.popMany (m.params.length + if m.isStatic = true then 0 else 1) >>= _) = _
  rw [hstatic, Frame.popMany]
  simp only [Bool.false_eq_true, if_false, hlength, hargs]
  change (s.dispatch (.object r) m >>= _) = _
  rw [hdispatch]
  rfl

/-- A method that can be run is entered, unless there are too many or too few type arguments or
too many calls. -/
theorem RealizedMethod.Runnable.enter
    (h : target.Runnable) {e : Execution} {args : List Value} {resume : Resume} {machine : Machine}
    {heap : Heap} {fault : Fault}
    (hfails : e.enter target args typeArgs resume = .finished machine heap (.error fault)) :
  ¬ fault.IsUnresolved
  := by
  obtain ⟨body, hbody⟩ := Option.isSome_iff_exists.mp h.body
  rw [Execution.enter] at hfails
  split at hfails
  · next e' herror =>
    cases hfails
    rw [callableBody] at herror
    rw [hbody, h.concrete] at herror
    simp only [Bool.false_eq_true, if_false] at herror
    split at herror
    · cases herror
      exact id
    · cases herror
  · split at hfails
    · cases hfails
    · cases hfails
      exact id

/-- A virtual call on an object that finds a method that can run. -/
theorem Execution.CallsOn.step
    {e : Execution} (h : e.CallsOn m r) (hm : s.methodAt m.handle = .ok m)
    (hstatic : m.isStatic = false) (hdispatch : s.dispatch (.object r) m = .ok target)
    (hrunnable : target.Runnable) {machine : Machine} {heap : Heap} {fault : Fault}
    (hfails : e.step s = .finished machine heap (.error fault)) :
  ¬ fault.IsUnresolved
  := by
  obtain ⟨f, callers, i, typeArgs, hframes, hinstruction, hop, hi, hreceiver⟩ := h
  rw [Execution.step] at hfails
  rw [hframes] at hfails
  dsimp only at hfails
  rw [hinstruction] at hfails
  dsimp only at hfails
  split at hfails
  · next error machine' htick =>
    cases hfails
    rw [Machine.tick] at htick
    dsimp only at htick
    split at htick
    · split at htick <;> cases htick
      exact id
    · cases htick
  · next machine' htick =>
    obtain ⟨g, args, hcall⟩ := Surroundings.call_dispatched
      machine'.limits.maxStackDepth hi hm hstatic hreceiver hdispatch
    rw [Surroundings.execute] at hfails
    rw [hop] at hfails
    dsimp only at hfails
    rw [hcall] at hfails
    apply hrunnable.enter hfails

end

namespace Project

variable {p : Project} {verify : Bool} {ts : List RealizedType} {t u c : RealizedType}
  {m : RealizedMethod} {r : ObjectRef}

/-! ## References by kinds -/

/-- References of declarations name declared types by their kinds. -/
def TrueKinds (p : Project) : Prop :=
  ∀ a ∈ p.units, ∀ d ∈ a.types, ∀ ref ∈ d.base.toList ++ d.interfaces,
    ∀ b ∈ p.units, ∀ d' ∈ b.types, ref.definedId? = some d'.id → ref = .defined d'.handle

instance (p : Project) : Decidable p.TrueKinds :=
  inferInstanceAs (Decidable (∀ a ∈ p.units, _))

theorem TrueKinds.handle_eq
    (h : p.TrueKinds) {x y : TypeId} {d d' : TypeDecl} {ref : TypeRef} (hd : p.decl? x = some d)
    (href : ref ∈ d.base.toList ++ d.interfaces) (hd' : p.decl? y = some d')
    (hy : ref.definedId? = some y) :
  ref = .defined d'.handle
  := by
  obtain ⟨i, a, ha, hd⟩ := exists_of_decl? hd
  obtain ⟨j, b, hb, hd'⟩ := exists_of_decl? hd'
  apply h a (List.mem_of_getElem? ha) d (List.mem_of_find?_eq_some hd) ref href b
    (List.mem_of_getElem? hb) d' (List.mem_of_find?_eq_some hd')
  rw [Assembly.decl?_id hd', hy]

/-- The bases of a class are classes. -/
theorem TrueKinds.class_of_inherits
    (h : p.TrueKinds) (hsound : p.Sound) (hlayered : Layered verify p.decl? ts) (ht : t ∈ ts)
    (hclass : t.handle.kind = .classType) (hc : Inherits ts t c) :
  c.handle.kind = .classType
  := by
  induction hc with
  | refl => apply hclass
  | @tail b c hpath hstep _ =>
      obtain ⟨x, hx, hfound⟩ := hstep
      obtain rfl : c.id = x := by simpa using List.find?_some hfound
      obtain ⟨d, hd, -, hmirrors, -⟩ := hlayered.mirrors (hlayered.tabled.size_le ht hpath).1
      obtain ⟨d', hd', -, hmirrors', -⟩ := hlayered.mirrors (List.mem_of_find?_eq_some hfound)
      rw [hmirrors.base, TypeDecl.baseId?] at hx
      obtain ⟨ref, href, hx⟩ := Option.bind_eq_some_iff.mp hx
      have hhandle := h.handle_eq hd (by simp [href]) hd' hx
      obtain ⟨i, a, ha, hd⟩ := exists_of_decl? hd
      obtain ⟨-, id, rfl⟩ := (hsound.regular ha _ d hd).base ref href
      rw [hmirrors'.handle, ← TypeRef.defined.inj hhandle]

/-- The interfaces of a class are interfaces. -/
theorem TrueKinds.interface_of_mem
    (h : p.TrueKinds) (hsound : p.Sound) (hlayered : Layered verify p.decl? ts) (ht : t ∈ ts)
    (hclass : t.handle.kind = .classType) (hu : u ∈ ts) (hmem : u.id ∈ t.allInterfaces) :
  u.handle.kind = .interfaceType
  := by
  rw [hlayered.mem_allInterfaces_iff ht hclass] at hmem
  obtain ⟨c, i, -, hi, hpath⟩ := hmem
  obtain ⟨x, d, hd, hmem⟩ : ∃ x, DeclaresInterface p.decl? x u.id := by
    obtain rfl | ⟨x, -, hstep⟩ := hpath.cases_tail
    · exact ⟨c, hi⟩
    · exact ⟨x, hstep⟩
  obtain ⟨d', hd', -, hmirrors, -⟩ := hlayered.mirrors hu
  rw [TypeDecl.interfaceIds, TypeRef.definedIds] at hmem
  obtain ⟨ref, href, hid⟩ := List.mem_filterMap.mp hmem
  have hhandle := h.handle_eq hd (List.mem_append_right _ href) hd' hid
  obtain ⟨j, a, ha, hd⟩ := exists_of_decl? hd
  obtain ⟨id, rfl⟩ := (hsound.regular ha _ d hd).interfaces ref href
  rw [hmirrors.handle, ← TypeRef.defined.inj hhandle]

/-! ## What calls find -/

/-- A method that is not abstract has a body. -/
theorem Arranged.runnable (h : p.Arranged ts t) (hm : m ∈ t.methods) (hconcrete : m.isAbstract = false) :
  m.Runnable
  := by
  obtain ⟨i, hi⟩ := List.getElem?_of_mem hm
  obtain ⟨d, -, -, hattributes, -, hbody⟩ := h.declared i m hi
  refine ⟨hconcrete, hbody ?_⟩
  rw [MethodDecl.isAbstract, ← hattributes]
  apply hconcrete

/-- An abstract method of a class has a slot. -/
theorem Arranged.isAbstract_eq_false
    (h : p.Arranged ts t) (hclass : t.handle.kind = .classType) (hm : m ∈ t.methods)
    (hslot : m.vtableSlot = none) :
  m.isAbstract = false
  := by
  obtain ⟨i, hi⟩ := List.getElem?_of_mem hm
  obtain ⟨d, -, -, hattributes, hproper, -⟩ := h.declared i m hi
  cases habstract : m.isAbstract with
  | false => rfl
  | true =>
      have hvirtual : m.isVirtual = true := by
        rw [RealizedMethod.isAbstract, hattributes] at habstract
        rw [RealizedMethod.isVirtual, hattributes]
        apply hproper.isAbstract habstract
      obtain ⟨slot, hsome⟩ := h.exists_slot hclass hm hvirtual
      rw [hslot] at hsome
      cases hsome

/-- What a class that can be instantiated has for a method of one of its bases can run. -/
theorem exists_filled_runnable
    (hsound : p.Sound) (hlayered : Layered true p.decl? p.session.types) (ht : t ∈ p.session.types)
    (hinstantiable : t.isInstantiable) (hc : Inherits p.session.types t c)
    (hclass : c.handle.kind = .classType) (hm : m ∈ c.methods) :
  ∃ target, p.session.filled t m = .ok target ∧ target.Runnable
  := by
  have harranged := hsound.arranged hlayered
  obtain ⟨hcmem, hsize⟩ := hlayered.tabled.size_le ht hc
  rw [Session.filled]
  cases hslot : m.vtableSlot with
  | none =>
      refine ⟨m, rfl, (harranged c hcmem).runnable hm ?_⟩
      apply (harranged c hcmem).isAbstract_eq_false hclass hm hslot
  | some slot =>
      have hlt : slot < t.vtable.size :=
        Nat.lt_of_lt_of_le (hlayered.tabled.own c hcmem m hm slot hslot) hsize
      obtain ⟨handle, hhandle⟩ : ∃ handle, t.vtable.method? slot = some handle :=
        ⟨_, List.getElem?_eq_getElem hlt⟩
      obtain ⟨held, hheld, hconcrete⟩ := hsound.concrete hlayered ht hinstantiable hhandle
      rw [Option.bind_some, hhandle]
      refine ⟨held, methodAt_ok_iff.mpr hheld, ?_⟩
      rw [methodIn] at hheld
      obtain ⟨holder, hholder, hmem⟩ := Option.bind_eq_some_iff.mp hheld
      apply (harranged holder (List.mem_of_find?_eq_some hholder)).runnable _ hconcrete
      apply List.mem_of_getElem? hmem

/-- A call of a method of a type that the class of an object derives from.  A method of a class has
its slot in the table of the object, and one of an interface has its entry in the map. -/
theorem exists_target
    (hsound : p.Sound) (hlayered : Layered true p.decl? p.session.types) (hkinds : p.TrueKinds)
    (ht : p.session.realized? r.type = some t) (hinstantiable : t.isInstantiable)
    (hu : u ∈ p.session.types) (hm : m ∈ u.methods) (hplain : m.IsContract)
    (hreaches : p.session.reaches r.type u.id = true) :
  ∃ target, p.session.dispatch (.object r) m = .ok target ∧ target.Runnable
  := by
  have harranged := hsound.arranged hlayered
  have hmem := List.mem_of_find?_eq_some ht
  have hid : t.id = r.type := by simpa using List.find?_some ht
  obtain ⟨hclass, hconcrete⟩ := hsound.class_of_instantiable hlayered hmem hinstantiable
  have hclasses : ∀ {c}, Inherits p.session.types t c → c.handle.kind = .classType :=
    hkinds.class_of_inherits hsound hlayered hmem hclass
  have howner : m.handle.owner = u.id := by
    obtain ⟨i, hi⟩ := List.getElem?_of_mem hm
    rw [(harranged u hu).handle_eq hi]
  have hreaches' := hreaches
  rw [← hid, hlayered.reaches_iff hmem] at hreaches'
  obtain ⟨c, hc, hsame | hinterface⟩ := hreaches'
  · have hcmem := (hlayered.tabled.size_le hmem hc).1
    obtain rfl : c = u := by
      have hfound := hlayered.find hcmem
      rw [hsame, hlayered.find hu] at hfound
      exact (Option.some.inj hfound).symm
    rw [dispatch_filled hlayered harranged hmem hc (hclasses hc) hm hid.symm]
    apply exists_filled_runnable hsound hlayered hmem hinstantiable hc (hclasses hc) hm
  · have hall := hlayered.allInterfaces_subset hmem hc hclass (hclasses hc) hinterface
    obtain ⟨interface, hfound, himplemented⟩ :=
      hlayered.exists_implementation hmem hclass hconcrete hall
    rw [hlayered.find hu] at hfound
    cases hfound
    obtain ⟨handle, hhandle⟩ := himplemented m hm hplain
    obtain ⟨-, -, -, -, -, -, c', hc', hinherits, own, hown, rfl, -⟩ :=
      hlayered.mapped.entries t hmem m.handle handle hhandle
    have hfound := (harranged c' hc').methodIn_handle hlayered hc' hown
    have hkind := hkinds.interface_of_mem hsound hlayered hmem hclass hu hall
    rw [Session.dispatch_contract ht (howner ▸ hlayered.find hu) (by rw [hkind]; rfl)
      (howner ▸ hreaches) hhandle (methodAt_ok_iff.mpr hfound)]
    apply exists_filled_runnable hsound hlayered hmem hinstantiable hinherits
      (hclasses hinherits) hown

/-! ## Sessions that go on -/

/-- In a session that verifies implementations, calls on an object that has been made find methods
that can run as long as the session is not cleared and references name types by their kinds,
whatever else happens.  The history declares fewer than `2 ^ 32 - 1` types, so that 32 bits tell
their ids apart. -/
theorem calls_on_live_objects
    (before later : List (HostEvent ρ)) (hclear : .clear ∉ later)
    (hnumbered : ((empty true).run (before ++ later)).session.Numbered)
    (hmakes : ((empty true).run before).session.Makes r)
    (hkinds : ((empty true).run (before ++ later)).TrueKinds) :
  (∀ earlier, earlier <+: before ++ later → ((empty true).run earlier).NumbersFit)
  ∧ ((empty true).run (before ++ later)).session.Serves r
  := by
  refine ⟨fun earlier => numbersFit_run true hnumbered, ?_⟩
  have hsound := (sound_empty true).run (before ++ later)
  have hlayered := stacked_run true (before ++ later)
  rw [Stacked, verify_run] at hlayered
  obtain ⟨t, ht, hinstantiable⟩ := hmakes
  have ht := ((sound_empty true).run before).realized?_run hclear ht
  rw [← run_append] at ht
  constructor
  · intro u hu m hm hplain hreaches
    apply exists_target hsound hlayered hkinds ht hinstantiable hu hm hplain hreaches
  · intro u hu m hm hplain hreaches e hcalls machine heap fault hfails
    obtain ⟨target, hdispatch, hrunnable⟩ :=
      exists_target hsound hlayered hkinds ht hinstantiable hu hm hplain hreaches
    have hfound := (hsound.arranged hlayered u hu).methodIn_handle hlayered hu hm
    apply hcalls.step (methodAt_ok_iff.mpr hfound) hplain.2 hdispatch hrunnable hfails

/-- An abstract class has an interface with an abstract method, and a class of another unit
derives from it and overrides the method. -/
def inheriting : List (HostEvent Unit) :=
  [ .build (.openUnit "A"),
    .build (.change 0 (.declareType "I" .interfaceType {} none)),
    .build (.change 0 (.defineMethod ⟨1⟩ "F" {} .minimal)),
    .build (.change 0 (.declareType "B" .classType
      { modifier := .isAbstract, interfaces := [.defined ⟨⟨1⟩, .interfaceType⟩] } none)),
    .build (.change 0 (.defineMethod ⟨2⟩ "F" { modifier := .isAbstract } .minimal)),
    .build (.change 0 .finalize),
    .build (.openUnit "B"),
    .build (.change 1
      (.declareType "C" .classType { base := some (.defined ⟨⟨2⟩, .classType⟩) } none)),
    .build (.change 1 (.defineMethod ⟨3⟩ "F" {} .minimal)),
    .build (.change 1 .finalize)]

/-- One more unit has a class that overrides the method again. -/
def extending : List (HostEvent Unit) :=
  [ .build (.openUnit "C"),
    .build (.change 2
      (.declareType "D" .classType { base := some (.defined ⟨⟨3⟩, .classType⟩) } none)),
    .build (.change 2 (.defineMethod ⟨4⟩ "F" {} .minimal)),
    .build (.change 2 .finalize)]

/-- On an object of the first of these classes, a call of the abstract method of the interface
finds a method that can run, also when the last unit has been finalized. -/
theorem calls_on_inheriting :
  ∃ u ∈ ((empty true).run (inheriting ++ extending)).session.types, ∃ m ∈ u.methods,
    u.handle.kind = .interfaceType ∧ m.isAbstract = true
      ∧ ∃ target, ((empty true).run (inheriting ++ extending)).session.dispatch
          (.object ⟨0, ⟨3⟩⟩) m = .ok target ∧ target.Runnable
  := by
  have hmakes : ((empty true).run inheriting).session.Makes ⟨0, ⟨3⟩⟩ := by
    have hmade : (((empty true).run inheriting).session.realized? ⟨3⟩).map (·.isInstantiable)
        = some true := by
      decide +kernel
    exact Option.map_eq_some_iff.mp hmade
  obtain ⟨-, hdispatch, -⟩ := calls_on_live_objects inheriting extending (by simp [extending])
    (by decide +kernel) hmakes (by decide +kernel)
  obtain ⟨u, hu, m, hm, hkind, habstract, hplain, hreaches⟩ :
      ∃ u ∈ ((empty true).run (inheriting ++ extending)).session.types, ∃ m ∈ u.methods,
        u.handle.kind = .interfaceType ∧ m.isAbstract = true
          ∧ (m.kind.isConstructor = false ∧ m.isStatic = false)
          ∧ ((empty true).run (inheriting ++ extending)).session.reaches ⟨3⟩ u.id = true := by
    decide +kernel
  exact ⟨u, hu, m, hm, hkind, habstract, hdispatch u hu m hm hplain hreaches⟩

end Project

end ManagedCode
