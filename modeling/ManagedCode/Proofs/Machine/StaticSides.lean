import ManagedCode.Proofs.Assembly.Registration
import ManagedCode.Proofs.Machine.Activation
import ManagedCode.Proofs.Machine.Lookups
import ManagedCode.Proofs.Machine.Worlds

/-!
# The static sides of types

What happens at a machine to the static sides of types, as a log of events (`StaticEvent`): slots
are created, initializers are started, and slots, static methods and constructors are used.  In an
orderly log (`Orderly`) the slots of a type are created once, its initializer is started at most
once, and nothing that needs the static side of a type comes before.

A call by dispatch runs no static method (`Project.addressed_run`), so that no static method is
called but by an instruction that has its type set up.

The log of a machine accounts for what the machine keeps: its slots are those that the log creates,
with the values that the log writes (`Ledger`).  Setting up a type and storing into a slot keep
that (`Ledger.prepare`, `Ledger.setStatic`).
-/

namespace ManagedCode

variable {ρ : Type}

/-! ## Members under their handles -/

namespace Workspace

variable {w : Workspace} {d : TypeDecl}

/-- The initializer of a type is one of the methods that have been laid out. -/
theorem layoutMethod_initializer
    {l l' : MethodLayout} {m : MethodDecl} (hlayout : w.layoutMethod d l m = .ok l')
    (h : ∀ handle, l.typeInitializer = some handle → ∃ r ∈ l.methods, r.handle = handle) :
  ∀ handle, l'.typeInitializer = some handle → ∃ r ∈ l'.methods, r.handle = handle
  := by
  obtain ⟨r, hmethods, hsig, -⟩ := layoutMethod_ok hlayout
  have hlast : l'.typeInitializer = if m.kind == .typeInitializer
      then some (d.methodRef l.methods.length) else l.typeInitializer := by
    rw [layoutMethod] at hlayout
    dsimp only at hlayout
    split at hlayout
    · cases hlayout
    split at hlayout
    · cases hlayout
    split at hlayout
    · obtain ⟨_, -, hlayout⟩ := exists_of_bind_ok hlayout
      cases hlayout
      rfl
    · cases hlayout
      rfl
  rw [hmethods, hlast]
  intro handle hhandle
  split at hhandle
  · refine ⟨r, List.mem_append_right _ List.mem_cons_self, ?_⟩
    exact (congrArg MethodSignature.handle hsig).trans (Option.some.inj hhandle)
  · obtain ⟨r', hr', hsame⟩ := h handle hhandle
    exact ⟨r', List.mem_append_left _ hr', hsame⟩

theorem layoutMethods_initializer
    {ms : List MethodDecl} {l l' : MethodLayout} (hlayout : ms.foldlM (w.layoutMethod d) l = .ok l')
    (h : ∀ handle, l.typeInitializer = some handle → ∃ r ∈ l.methods, r.handle = handle) :
  ∀ handle, l'.typeInitializer = some handle → ∃ r ∈ l'.methods, r.handle = handle
  := by
  induction ms generalizing l with
  | nil =>
      cases hlayout
      exact h
  | cons m ms ih =>
      rw [List.foldlM_cons] at hlayout
      obtain ⟨l₁, hone, hrest⟩ := exists_of_bind_ok hlayout
      exact ih hrest (layoutMethod_initializer hone h)

theorem layoutType_initializer
    {id : TypeId} {t : RealizedType} (hlayout : w.layoutType id = .ok t) {handle : MethodRef}
    (hhandle : t.typeInitializer = some handle) :
  ∃ m ∈ t.methods, m.handle = handle
  := by
  rw [layoutType] at hlayout
  obtain ⟨d, -, hlayout⟩ := exists_of_bind_ok hlayout
  obtain ⟨base, -, hlayout⟩ := exists_of_bind_ok hlayout
  obtain ⟨methods, hmethods, hlayout⟩ := exists_of_bind_ok hlayout
  obtain ⟨⟨all, map⟩, -, hlayout⟩ := exists_of_bind_ok hlayout
  obtain ⟨_, -, hlayout⟩ := exists_of_bind_ok hlayout
  cases hlayout
  apply layoutMethods_initializer hmethods _ _ hhandle
  rintro handle ⟨⟩

end Workspace

/-- Types are found under their numbers, and their members have handles that lead to them.  The
initializer of a type is one of its methods, and a method of objects runs as a method of objects. -/
structure Session.Addressed (s : Session) : Prop where
  types : ∀ t ∈ s.types, s.realized? t.id = some t
  methods : ∀ t ∈ s.types, ∀ (i : Nat) (m : RealizedMethod),
    t.methods[i]? = some m → m.handle = ⟨t.id, i⟩
  fields : ∀ t ∈ s.types, ∀ (i : Nat) (f : RealizedField),
    t.fields[i]? = some f → f.handle = ⟨t.id, i⟩
  initializers : ∀ t ∈ s.types, ∀ handle, t.typeInitializer = some handle →
    ∃ m ∈ t.methods, m.handle = handle
  dispatches : ∀ receiver m target, m.isStatic = false →
    s.dispatch receiver m = .ok target → target.isStatic = false

namespace Layered

variable {verify : Bool} {decls : TypeId → Option TypeDecl} {ts : List RealizedType}
  {t : RealizedType}

theorem initializer
    (h : Layered verify decls ts) (ht : t ∈ ts) {handle : MethodRef}
    (hhandle : t.typeInitializer = some handle) :
  ∃ m ∈ t.methods, m.handle = handle
  := by
  induction h with
  | nil => cases ht
  | snoc _ _ _ _ _ _ _ hlayout ih =>
      obtain ht | ht := List.mem_append.mp ht
      · exact ih ht
      · obtain rfl := List.mem_singleton.mp ht
        exact Workspace.layoutType_initializer hlayout hhandle

theorem addressed
    {s : Session} (h : Layered verify decls s.types)
    (hdispatches : ∀ receiver m target, m.isStatic = false →
      s.dispatch receiver m = .ok target → target.isStatic = false) :
  s.Addressed
  := by
  constructor
  case types =>
    intro t ht
    exact h.find ht
  case methods =>
    intro t ht i m hm
    obtain ⟨d, -, hview⟩ := h.view ht
    have hid : d.id = t.id := congrArg (fun v => v.handle.id) hview
    have hsig := congrArg (fun v => v.methods[i]?) hview
    simp only [TypeView.ofDecl, TypeView.ofRealized, List.getElem?_map, List.getElem?_mapIdx, hm,
      Option.map_some] at hsig
    obtain ⟨m', -, hsig⟩ := Option.map_eq_some_iff.mp hsig
    rw [← hid]
    exact (congrArg MethodSignature.handle hsig).symm
  case fields =>
    intro t ht i f hf
    obtain ⟨d, -, hview⟩ := h.view ht
    have hid : d.id = t.id := congrArg (fun v => v.handle.id) hview
    have hsig := congrArg (fun v => v.fields[i]?) hview
    simp only [TypeView.ofDecl, TypeView.ofRealized, List.getElem?_map, List.getElem?_mapIdx, hf,
      Option.map_some] at hsig
    obtain ⟨f', -, hsig⟩ := Option.map_eq_some_iff.mp hsig
    rw [← hid]
    exact (congrArg FieldSignature.handle hsig).symm
  case initializers =>
    intro t ht handle hhandle
    exact h.initializer ht hhandle
  case dispatches => exact hdispatches

end Layered

theorem Session.realized?_some {s : Session} {id : TypeId} {t : RealizedType}
    (ht : s.realized? id = some t) :
  t ∈ s.types ∧ t.id = id
  := ⟨List.mem_of_find?_eq_some ht, by simpa using List.find?_some ht⟩

theorem Session.typeAt_ok {s : Session} {id : TypeId} {t : RealizedType}
    (ht : s.typeAt id = .ok t) :
  s.realized? id = some t
  := by
  rw [typeAt] at ht
  split at ht
  · next hrealized =>
    cases ht
    exact hrealized
  · cases ht

namespace Session.Addressed

variable {s : Session} {t : RealizedType} {m : RealizedMethod} {f : RealizedField}

theorem mem_methods (h : s.Addressed) (ht : t ∈ s.types) (hm : m ∈ t.methods) :
  m.handle.owner = t.id ∧ s.methodAt m.handle = .ok m
  := by
  obtain ⟨i, hi⟩ := List.getElem?_of_mem hm
  rw [methodAt_ok_iff, h.methods t ht i m hi]
  refine ⟨rfl, ?_⟩
  change (s.realized? t.id).bind _ = _
  rw [h.types t ht]
  exact hi

theorem methodAt (h : s.Addressed) {handle : MethodRef} (hm : s.methodAt handle = .ok m) :
  m.handle = handle ∧ ∃ t, s.realized? handle.owner = some t ∧ m ∈ t.methods
  := by
  obtain ⟨t, ht, hmethod⟩ := Option.bind_eq_some_iff.mp (methodAt_ok_iff.mp hm)
  obtain ⟨hmem, hid⟩ := realized?_some ht
  refine ⟨?_, t, ht, List.mem_of_getElem? hmethod⟩
  rw [h.methods t hmem handle.index m hmethod, hid]

theorem fieldAt (h : s.Addressed) {handle : FieldRef} (hf : s.fieldAt handle = .ok f) :
  f.handle = handle ∧ ∃ t, s.realized? handle.owner = some t
  := by
  rw [Session.fieldAt] at hf
  obtain ⟨t, ht, hf⟩ := exists_of_bind_ok hf
  have hrealized := typeAt_ok ht
  obtain ⟨hmem, hid⟩ := realized?_some hrealized
  split at hf
  · next field hfield =>
    cases hf
    refine ⟨?_, t, hrealized⟩
    rw [h.fields t hmem handle.index f hfield, hid]
  · cases hf

/-- The initializer of a type is found. -/
theorem initializer
    (h : s.Addressed) (ht : t ∈ s.types) {handle : MethodRef}
    (hhandle : t.typeInitializer = some handle) :
  ∃ m, s.methodAt handle = .ok m ∧ m.handle = handle
  := by
  obtain ⟨m, hm, rfl⟩ := h.initializers t ht handle hhandle
  exact ⟨m, (h.mem_methods ht hm).2, rfl⟩

end Session.Addressed

/-! ## What a call by dispatch runs -/

/-- What runs for a method is the method, or what a type has in its slot. -/
theorem Session.filled_cases {s : Session} {t : RealizedType} {m target : RealizedMethod}
    (hfilled : (match m.vtableSlot.bind t.vtable.method? with
      | some held => if held = m.handle then pure m else s.methodAt held
      | none => pure m) = Except.ok target) :
  target = m
  ∨ ∃ slot held, t.vtable.method? slot = some held ∧ s.methodAt held = .ok target
  := by
  split at hfilled
  · next held hheld =>
    obtain ⟨slot, -, hslot⟩ := Option.bind_eq_some_iff.mp hheld
    split at hfilled
    · cases hfilled
      exact .inl rfl
    · exact .inr ⟨slot, held, hslot, hfilled⟩
  · cases hfilled
    exact .inl rfl

/-- What a call by dispatch runs is the declared method, or a method that a type has in a slot or
takes for the declared method. -/
theorem Session.dispatch_cases {s : Session} {receiver : Value} {declared target : RealizedMethod}
    (hdispatch : s.dispatch receiver declared = .ok target) :
  target = declared
  ∨ ∃ t ∈ s.types, ∃ handle, s.methodAt handle = .ok target
      ∧ ((∃ slot, t.vtable.method? slot = some handle)
        ∨ t.implementation? declared.handle = some handle)
  := by
  unfold dispatch at hdispatch
  split at hdispatch
  · cases hdispatch
  · dsimp only at hdispatch
    split at hdispatch
    · cases hdispatch
    · obtain ⟨t, ht, hdispatch⟩ := exists_of_bind_ok hdispatch
      obtain ⟨declaring, -, hdispatch⟩ := exists_of_bind_ok hdispatch
      have hmem := (realized?_some (typeAt_ok ht)).1
      split at hdispatch
      · split at hdispatch
        · next handle himplementation =>
          obtain ⟨m, hm, hdispatch⟩ := exists_of_bind_ok hdispatch
          obtain rfl | ⟨slot, held, hheld, hfound⟩ := filled_cases hdispatch
          · exact .inr ⟨t, hmem, handle, hm, .inr himplementation⟩
          · exact .inr ⟨t, hmem, held, hfound, .inl ⟨slot, hheld⟩⟩
        · cases hdispatch
      · obtain rfl | ⟨slot, held, hheld, hfound⟩ := filled_cases hdispatch
        · exact .inl rfl
        · exact .inr ⟨t, hmem, held, hfound, .inl ⟨slot, hheld⟩⟩
  · split at hdispatch
    · cases hdispatch
    · cases hdispatch
      exact .inl rfl

namespace Project

variable {p : Project} {t : RealizedType} {m : RealizedMethod} {handle : MethodRef}

/-- A method that is linked to an interface method is a method of objects. -/
theorem Sound.isStatic_of_linked
    (h : p.Sound) (ht : t ∈ p.session.types) (hm : m ∈ t.methods) (hlinked : m.overrides.isSome) :
  m.isStatic = false
  := by
  obtain ⟨i, a, d, ha, hd, -, hmirrors⟩ := h.origin t ht
  obtain ⟨k, hk⟩ := List.getElem?_of_mem hm
  have hsig := congrArg (fun sigs => sigs[k]?) hmirrors.methods
  have hoverrides := congrArg (fun links => links[k]?) hmirrors.overrides
  simp only [TypeView.ofDecl, TypeView.ofRealized, List.getElem?_map, List.getElem?_mapIdx, hk,
    Option.map_some] at hsig hoverrides
  obtain ⟨m', hm', hsig⟩ := Option.map_eq_some_iff.mp hsig.symm
  rw [hm', Option.map_some] at hoverrides
  have hproper := (h.regular ha _ d hd).methods m' (List.mem_of_getElem? hm')
  have hattributes : m'.attributes = m.attributes := congrArg MethodSignature.attributes hsig
  rw [RealizedMethod.isStatic, ← hattributes]
  apply hproper.isVirtual
  apply hproper.implementing
  rw [← Option.some.inj hoverrides]
  exact hlinked

section

variable (h : p.Sound) (hstacked : p.Stacked) (ht : t ∈ p.session.types)
  (hm : p.session.methodAt handle = .ok m)
include h hstacked ht hm

/-- What a type has in a slot is a method of objects. -/
theorem isStatic_of_slot {slot : Nat} (hslot : t.vtable.method? slot = some handle) :
  m.isStatic = false
  := by
  obtain ⟨k, hk⟩ := List.getElem?_of_mem ht
  obtain ⟨held, hholds, rfl⟩ := exists_holds hstacked (h.arranged hstacked) hk hslot
  obtain ⟨c, hinherits, hmem, hheld⟩ := hholds.mem
  have hc := (hstacked.tabled.size_le ht hinherits).1
  have harranged := h.arranged hstacked c hc
  rw [methodAt_ok_iff, harranged.methodIn_handle hstacked hc hmem] at hm
  cases hm
  have hslotted := (harranged.slotted _ hmem).mp (Option.isSome_of_eq_some hheld)
  exact hslotted.2.2

/-- What a type takes for an interface method is a method of objects. -/
theorem isStatic_of_implementation
    {contract : MethodRef} (hcontract : t.implementation? contract = some handle) :
  m.isStatic = false
  := by
  obtain ⟨_, -, _, -, -, -, c, hc, -, own, hown, rfl, hsource⟩ :=
    hstacked.mapped.entries t ht contract handle hcontract
  rw [methodAt_ok_iff, (h.arranged hstacked c hc).methodIn_handle hstacked hc hown] at hm
  cases hm
  obtain ⟨-, hstatic⟩ | hlinked := hsource
  · exact hstatic
  · apply h.isStatic_of_linked hc hown
    have hlink := List.find?_some hlinked
    rw [beq_iff_eq.mp hlink]
    rfl

end

/-- In every session the members of types have handles that lead to them, and a call by dispatch
runs a method of objects. -/
theorem addressed_run (verify : Bool) (history : List (HostEvent ρ)) :
  ((empty verify).run history).session.Addressed
  := by
  have hsound := (sound_empty verify).run history
  have hstacked := stacked_run verify history
  apply hstacked.addressed
  intro receiver m target hm hdispatch
  obtain rfl | ⟨t, ht, handle, htarget, ⟨slot, hslot⟩ | himplementation⟩ :=
    Session.dispatch_cases hdispatch
  · exact hm
  · exact isStatic_of_slot hsound hstacked ht htarget hslot
  · exact isStatic_of_implementation hsound hstacked ht htarget himplementation

end Project

/-! ## Events -/

/-- What happens to the static side of a type at a machine: its slots are created, its initializer
is started, a slot is read or written, a static method is called, or an object is constructed. -/
inductive StaticEvent where
  | creates (t : RealizedType)
  | starts (t : RealizedType) (initializer : RealizedMethod)
  | reads (owner : TypeId) (slot : Nat)
  | writes (owner : TypeId) (slot : Nat) (v : Value)
  | calls (m : RealizedMethod)
  | constructs (t : RealizedType)

namespace StaticEvent

/-- The type whose slots an event creates. -/
def created? : StaticEvent → Option TypeId
  | creates t => some t.id
  | _ => none

/-- The type whose initializer an event starts. -/
def started? : StaticEvent → Option TypeId
  | starts t _ => some t.id
  | _ => none

/-- The type whose static side has to be set up for an event. -/
def used? : StaticEvent → Option TypeId
  | creates _ | starts _ _ => none
  | reads owner _ | writes owner _ _ => some owner
  | calls m => some m.handle.owner
  | constructs t => some t.id

/-- What an event makes of the slots of types.  New slots have the defaults of their type. -/
def replay (statics : List (TypeId × List Value)) : StaticEvent → List (TypeId × List Value)
  | creates t => (t.id, t.staticDefaults.map Value.toStack) :: statics
  | writes owner slot v =>
    statics.map fun (id, slots) => (id, if id == owner then slots.set slot v else slots)
  | _ => statics

end StaticEvent

/-- What has happened, the latest event last. -/
abbrev StaticLog := List StaticEvent

namespace StaticLog

/-- The types whose slots have been created. -/
def created (log : StaticLog) : List TypeId :=
  log.filterMap (·.created?)

/-- The types whose initializers have been started. -/
def started (log : StaticLog) : List TypeId :=
  log.filterMap (·.started?)

/-- The slots that a log leaves. -/
def statics (log : StaticLog) : List (TypeId × List Value) :=
  log.foldl StaticEvent.replay []

/-- The slots of a type have been created, and if `runs` says that initializers run, so has its
initializer been started. -/
def Ready (runs : Bool) (log : StaticLog) (id : TypeId) : Prop :=
  ∃ t, .creates t ∈ log ∧ t.id = id
    ∧ (runs = true → ∀ handle, t.typeInitializer = some handle →
        ∃ m, .starts t m ∈ log ∧ m.handle = handle)

/-- The slots of a type, one of the types that are known, are created at most once, its initializer
is started at most once, after its slots have been created, and at whatever needs its static side
it is ready. -/
structure Orderly (Known : RealizedType → Prop) (runs : Bool) (log : StaticLog) : Prop where
  known : ∀ {t}, .creates t ∈ log → Known t
  created : log.created.Nodup
  started : log.started.Nodup
  starts : ∀ {before t m}, before ++ [.starts t m] <+: log →
    runs = true ∧ .creates t ∈ before ∧ t.typeInitializer = some m.handle
  uses : ∀ {before e id}, before ++ [e] <+: log → e.used? = some id → Ready runs before id

variable {Known : RealizedType → Prop} {runs : Bool} {log : StaticLog} {id : TypeId}
  {t : RealizedType} {m : RealizedMethod} {e : StaticEvent}

theorem created_snoc (log : StaticLog) (e : StaticEvent) :
  (log ++ [e]).created = log.created ++ e.created?.toList
  := by
  rw [created, List.filterMap_append]
  cases e <;> rfl

theorem started_snoc (log : StaticLog) (e : StaticEvent) :
  (log ++ [e]).started = log.started ++ e.started?.toList
  := by
  rw [started, List.filterMap_append]
  cases e <;> rfl

theorem statics_snoc (log : StaticLog) (e : StaticEvent) :
  (log ++ [e]).statics = e.replay log.statics
  := List.foldl_append

theorem mem_created (h : .creates t ∈ log) : t.id ∈ log.created :=
  List.mem_filterMap.mpr ⟨_, h, rfl⟩

theorem exists_starts (h : id ∈ log.started) : ∃ t m, .starts t m ∈ log ∧ t.id = id := by
  obtain ⟨e, he, hstarted⟩ := List.mem_filterMap.mp h
  cases e with
  | starts t m => exact ⟨t, m, he, Option.some.inj hstarted⟩
  | _ => cases hstarted

theorem mem_started (h : .starts t m ∈ log) : t.id ∈ log.started :=
  List.mem_filterMap.mpr ⟨_, h, rfl⟩

theorem Ready.more (h : Ready runs log id) (more : StaticLog) : Ready runs (log ++ more) id := by
  obtain ⟨t, hcreated, hid, hstarted⟩ := h
  refine ⟨t, List.mem_append_left _ hcreated, hid, ?_⟩
  intro hruns handle hhandle
  obtain ⟨m, hm, hsame⟩ := hstarted hruns handle hhandle
  exact ⟨m, List.mem_append_left _ hm, hsame⟩

theorem Ready.created (h : Ready runs log id) : id ∈ log.created := by
  obtain ⟨t, hcreated, rfl, -⟩ := h
  exact mem_created hcreated

/-- There are slots for the types that the log has created slots for. -/
theorem map_fst_statics (log : StaticLog) : log.statics.map (·.1) = log.created.reverse := by
  induction log using List.reverseRecOn with
  | nil => rfl
  | append_singleton log e ih =>
      rw [statics_snoc, created_snoc, List.reverse_append, ← ih]
      cases e with
      | creates t => rfl
      | writes owner slot v =>
          rw [StaticEvent.replay, List.map_map]
          rfl
      | _ => rfl

/-- A type keeps as many slots as it has got. -/
theorem exists_slots (h : .creates t ∈ log) :
  ∃ slots, (t.id, slots) ∈ log.statics ∧ slots.length = t.staticDefaults.length
  := by
  induction log using List.reverseRecOn with
  | nil => cases h
  | append_singleton log e ih =>
      rw [statics_snoc]
      obtain h | h := List.mem_append.mp h
      · obtain ⟨slots, hmem, hlength⟩ := ih h
        cases e with
        | creates t' => exact ⟨slots, List.mem_cons_of_mem _ hmem, hlength⟩
        | writes owner slot v =>
            refine ⟨_, List.mem_map_of_mem hmem, ?_⟩
            split
            · rw [List.length_set, hlength]
            · exact hlength
        | _ => exact ⟨slots, hmem, hlength⟩
      · obtain rfl := List.mem_singleton.mp h
        exact ⟨_, List.mem_cons_self, List.length_map _⟩

namespace Orderly

theorem nil : Orderly Known runs [] := by
  have hnone : ∀ {before : StaticLog} {e : StaticEvent}, ¬ before ++ [e] <+: [] := by
    intro before e hprefix
    cases List.append_eq_nil_iff.mp (List.prefix_nil.mp hprefix) with
    | intro _ hlast => cases hlast
  constructor
  case known => rintro t ⟨⟩
  case created => exact List.nodup_nil
  case started => exact List.nodup_nil
  case starts => exact fun hprefix => absurd hprefix hnone
  case uses => exact fun hprefix => absurd hprefix hnone

/-- One more event, with what an orderly log says about it. -/
theorem snoc
    (h : Orderly Known runs log) (hknown : ∀ t, e = .creates t → Known t)
    (hcreated : ∀ id, e.created? = some id → id ∉ log.created)
    (hstarted : ∀ id, e.started? = some id → id ∉ log.started)
    (hstarts : ∀ t m, e = .starts t m →
      runs = true ∧ .creates t ∈ log ∧ t.typeInitializer = some m.handle)
    (huses : ∀ id, e.used? = some id → Ready runs log id) :
  Orderly Known runs (log ++ [e])
  := by
  have hlast : ∀ {before : StaticLog} {e'}, before ++ [e'] <+: log ++ [e] →
      before = log ∧ e' = e ∨ before ++ [e'] <+: log := by
    intro before e' hprefix
    obtain hall | hprefix := List.prefix_concat_iff.mp hprefix
    · obtain ⟨rfl, hsame⟩ := List.append_inj' hall rfl
      exact .inl ⟨rfl, (List.cons.inj hsame).1⟩
    · exact .inr hprefix
  have hsnoc : ∀ {before : List TypeId} {next : Option TypeId}, before.Nodup →
      (∀ id, next = some id → id ∉ before) → (before ++ next.toList).Nodup := by
    intro before next hbefore hnext
    cases next with
    | none => rwa [Option.toList_none, List.append_nil]
    | some id => exact List.nodup_append.mpr ⟨hbefore, List.nodup_singleton id, fun x hx y hy hxy =>
        hnext id rfl (List.mem_singleton.mp hy ▸ hxy ▸ hx)⟩
  constructor
  case known =>
    intro t ht
    obtain ht | ht := List.mem_append.mp ht
    · exact h.known ht
    · exact hknown t (List.mem_singleton.mp ht).symm
  case created =>
    rw [created_snoc]
    exact hsnoc h.created hcreated
  case started =>
    rw [started_snoc]
    exact hsnoc h.started hstarted
  case starts =>
    intro before t m hprefix
    obtain ⟨rfl, hsame⟩ | hprefix := hlast hprefix
    · exact hstarts t m hsame.symm
    · exact h.starts hprefix
  case uses =>
    intro before e' id hprefix hused
    obtain ⟨rfl, rfl⟩ | hprefix := hlast hprefix
    · exact huses id hused
    · exact h.uses hprefix hused

/-- Slots are created for a type that has none. -/
theorem creates (h : Orderly Known runs log) (ht : Known t) (hnew : t.id ∉ log.created) :
  Orderly Known runs (log ++ [.creates t])
  := by
  apply h.snoc
  · rintro _ ⟨⟩
    exact ht
  · rintro _ ⟨⟩
    exact hnew
  · rintro _ ⟨⟩
  · rintro _ _ ⟨⟩
  · rintro _ ⟨⟩

/-- An initializer is started only for a type whose slots have been created. -/
theorem creates_of_starts (h : Orderly Known runs log) (hm : .starts t m ∈ log) :
  .creates t ∈ log
  := by
  obtain ⟨before, later, rfl⟩ := List.append_of_mem hm
  have hprefix : before ++ [.starts t m] <+: before ++ .starts t m :: later :=
    ⟨later, List.append_assoc ..⟩
  obtain ⟨-, hcreated, -⟩ := h.starts hprefix
  exact List.mem_append_left _ hcreated

theorem created_of_started (h : Orderly Known runs log) (hid : id ∈ log.started) :
  id ∈ log.created
  := by
  obtain ⟨t, m, hm, rfl⟩ := exists_starts hid
  exact mem_created (h.creates_of_starts hm)

/-- The initializer of a type is started when its slots have been created. -/
theorem creates_starts
    (h : Orderly Known runs log) (ht : Known t) (hnew : t.id ∉ log.created) (hruns : runs = true)
    (hm : t.typeInitializer = some m.handle) :
  Orderly Known runs (log ++ [.creates t, .starts t m])
  := by
  rw [List.append_cons]
  apply (h.creates ht hnew).snoc
  · rintro _ ⟨⟩
  · rintro _ ⟨⟩
  · rintro _ ⟨⟩
    have hstarted : StaticLog.started (log ++ [.creates t]) = log.started :=
      (started_snoc log _).trans (List.append_nil _)
    rw [hstarted]
    exact mt h.created_of_started hnew
  · rintro _ _ ⟨⟩
    exact ⟨hruns, List.mem_append_right _ List.mem_cons_self, hm⟩
  · rintro _ ⟨⟩

end Orderly

end StaticLog

/-! ## Machines and their logs -/

namespace Machine

/-- What a machine keeps of the static sides of types. -/
def staticSide (machine : Machine) : Bool × List TypeId × List (TypeId × List Value) :=
  (machine.runInitializers, machine.initialized, machine.statics)

/-- What happens when the static side of a type is set up. -/
def preparing (machine : Machine) (session : Session) (id : TypeId) : StaticLog :=
  match session.realized? id with
  | none => []
  | some t =>
    (if machine.initialized.contains id then [] else [.creates t])
      ++ match (machine.prepare session id).1 with
        | .ok (some m) => [.starts t m]
        | _ => []

theorem tick_staticSide (machine : Machine) : machine.tick.2.staticSide = machine.staticSide := by
  rw [tick]
  dsimp only
  split
  · split <;> rfl
  · rfl

end Machine

/-- A log accounts for what a machine keeps: it is orderly, its slots are those of the machine, and
the types that the machine counts as set up are those whose slots it creates, which are ready. -/
structure Ledger (Known : RealizedType → Prop) (runs : Bool) (log : StaticLog) (machine : Machine) :
    Prop where
  initializers : machine.runInitializers = runs
  statics : machine.statics = log.statics
  orderly : log.Orderly Known runs
  created : ∀ id ∈ log.created, id ∈ machine.initialized
  ready : ∀ id ∈ machine.initialized, log.Ready runs id

namespace Ledger

open StaticLog

variable {Known Known' : RealizedType → Prop} {runs : Bool} {log : StaticLog}
  {machine machine' : Machine} {session : Session} {id : TypeId} {e : StaticEvent}

theorem of_staticSide
    (h : Ledger Known runs log machine) (hsame : machine'.staticSide = machine.staticSide) :
  Ledger Known runs log machine'
  := by
  simp only [Machine.staticSide, Prod.mk.injEq] at hsame
  obtain ⟨hruns, hinitialized, hstatics⟩ := hsame
  constructor
  · rw [hruns, h.initializers]
  · rw [hstatics, h.statics]
  · exact h.orderly
  · rw [hinitialized]
    exact h.created
  · rw [hinitialized]
    exact h.ready

theorem mono (h : Ledger Known runs log machine) (hknown : ∀ t, Known t → Known' t) :
  Ledger Known' runs log machine
  :=
  { h with orderly := { h.orderly with known := fun ht => hknown _ (h.orderly.known ht) } }

/-- A new machine has no log. -/
theorem new (limits : Limits) (runs : Bool) :
  Ledger Known runs [] { limits := limits, runInitializers := runs }
  := by
  refine ⟨rfl, rfl, .nil, ?_, ?_⟩
  · rintro id ⟨⟩
  · rintro id ⟨⟩

/-- What needs the static side of a type happens when the type is ready. -/
theorem use
    (h : Ledger Known runs log machine) (hused : e.used? = some id) (hready : log.Ready runs id)
    (hsame : machine'.staticSide
      = (machine.runInitializers, machine.initialized, e.replay machine.statics)) :
  Ledger Known runs (log ++ [e]) machine'
  := by
  simp only [Machine.staticSide, Prod.mk.injEq] at hsame
  obtain ⟨hruns, hinitialized, hstatics⟩ := hsame
  have hnone : e.created? = none ∧ e.started? = none := by
    cases e with
    | creates t | starts t m => cases hused
    | _ => exact ⟨rfl, rfl⟩
  constructor
  case initializers => rw [hruns, h.initializers]
  case statics => rw [hstatics, statics_snoc, h.statics]
  case orderly =>
    apply h.orderly.snoc
    · rintro t rfl
      cases hused
    · rw [hnone.1]
      rintro id ⟨⟩
    · rw [hnone.2]
      rintro id ⟨⟩
    · rintro t m rfl
      cases hused
    · rw [hused]
      rintro _ ⟨⟩
      exact hready
  case created =>
    rw [created_snoc, hnone.1, Option.toList_none, List.append_nil, hinitialized]
    exact h.created
  case ready =>
    intro id hid
    rw [hinitialized] at hid
    exact (h.ready id hid).more [e]

theorem nodup (h : Ledger Known runs log machine) : (machine.statics.map (·.1)).Nodup := by
  rw [h.statics, map_fst_statics, List.nodup_reverse]
  exact h.orderly.created

/-- A store that fails changes nothing, and its event says so. -/
theorem replay_failed
    (h : Ledger Known runs log machine) {slot : Nat} {v : Value} {error : Fault}
    (hset : machine.setStatic id slot v = .error error) :
  (StaticEvent.writes id slot v).replay machine.statics = machine.statics
  := by
  have hbounds : ∀ slots, (id, slots) ∈ machine.statics → slots.length ≤ slot := by
    intro slots hmem
    rw [Machine.setStatic, lookup_of_nodup h.nodup hmem] at hset
    dsimp only at hset
    split at hset
    · cases hset
    · next hlt => exact Nat.le_of_not_lt hlt
  rw [StaticEvent.replay]
  conv_rhs => rw [← List.map_id machine.statics]
  apply List.map_congr_left
  rintro ⟨owner, slots⟩ hmem
  dsimp only
  split
  · next hsame =>
    rw [eq_of_beq hsame] at hmem
    rw [List.set_eq_of_length_le (hbounds slots hmem)]
    rfl
  · rfl

/-- A store writes a slot, or fails and changes nothing. -/
theorem setStatic
    (h : Ledger Known runs log machine) (hready : log.Ready runs id) (slot : Nat) (v : Value) :
  Ledger Known runs (log ++ [.writes id slot v])
    (match machine.setStatic id slot v with
      | .ok machine' => machine'
      | .error _ => machine)
  := by
  cases hset : machine.setStatic id slot v with
  | error error =>
      apply h.use rfl hready
      rw [h.replay_failed hset]
      rfl
  | ok machine' =>
      apply h.use rfl hready
      rw [Machine.setStatic] at hset
      split at hset
      · split at hset
        · cases hset
          rfl
        · cases hset
      · cases hset

/-- The first time that the static side of a type is set up, its slots are created, and the type is
ready after what else happens. -/
theorem creates
    (h : Ledger Known runs log machine) {t : RealizedType} {more : StaticLog}
    (horderly : Orderly Known runs (log ++ .creates t :: more))
    (hready : Ready runs (log ++ .creates t :: more) t.id)
    (hcreated : StaticLog.created (log ++ .creates t :: more) = log.created ++ [t.id])
    (hstatics : StaticLog.statics (log ++ .creates t :: more)
      = (t.id, t.staticDefaults.map Value.toStack) :: log.statics)
    (hsame : machine'.staticSide = (machine.runInitializers, t.id :: machine.initialized,
      (t.id, t.staticDefaults.map Value.toStack) :: machine.statics)) :
  Ledger Known runs (log ++ .creates t :: more) machine'
  := by
  simp only [Machine.staticSide, Prod.mk.injEq] at hsame
  obtain ⟨hruns, hinitialized, hslots⟩ := hsame
  constructor
  case initializers => rw [hruns, h.initializers]
  case statics => rw [hslots, hstatics, h.statics]
  case orderly => exact horderly
  case created =>
    rw [hcreated, hinitialized]
    intro id hid
    obtain hid | hid := List.mem_append.mp hid
    · exact List.mem_cons_of_mem _ (h.created id hid)
    · exact List.mem_singleton.mp hid ▸ List.mem_cons_self
  case ready =>
    rw [hinitialized]
    exact List.forall_mem_cons.mpr ⟨hready, fun id hid => (h.ready id hid).more _⟩

/-- When the static side of a type has been set up, the type is ready.  Without an initializer to
run, the slots are all that it needs. -/
theorem prepare
    (h : Ledger Known runs log machine) (hsession : session.Addressed)
    (hknown : ∀ t ∈ session.types, Known t) (hid : ∃ t, session.realized? id = some t) :
  Ledger Known runs (log ++ machine.preparing session id) (machine.prepare session id).2
    ∧ Ready runs (log ++ machine.preparing session id) id
    ∧ ∃ initializer, (machine.prepare session id).1 = .ok initializer
  := by
  obtain ⟨t, ht⟩ := hid
  obtain ⟨hmem, rfl⟩ := Session.realized?_some ht
  by_cases hmarked : machine.initialized.contains t.id = true
  · have hprepare : machine.prepare session t.id = (.ok none, machine) := by
      rw [Machine.prepare, if_pos hmarked]
    rw [Machine.preparing, ht, hprepare]
    dsimp only
    rw [if_pos hmarked, List.append_nil, List.append_nil]
    exact ⟨h, h.ready t.id (List.contains_iff_mem.mp hmarked), none, rfl⟩
  have hnew : t.id ∉ log.created :=
    fun hcreated => hmarked (List.contains_iff_mem.mpr (h.created _ hcreated))
  have hkept : machine.statics.filter (·.1 != t.id) = machine.statics := by
    apply List.filter_eq_self.mpr
    intro entry hentry
    have hkey := List.mem_map_of_mem (f := (·.1)) hentry
    rw [h.statics, map_fst_statics, List.mem_reverse] at hkey
    exact bne_iff_ne.mpr fun hsame => hnew (hsame ▸ hkey)
  have hslots : (runs = true → t.typeInitializer = none) →
      Ledger Known runs (log ++ [.creates t]) { machine with
          initialized := t.id :: machine.initialized
          statics := (t.id, t.staticDefaults.map Value.toStack) :: machine.statics }
        ∧ Ready runs (log ++ [.creates t]) t.id := by
    intro hnone
    have hready : Ready runs (log ++ [.creates t]) t.id := by
      refine ⟨t, List.mem_append_right _ List.mem_cons_self, rfl, ?_⟩
      intro hruns handle hhandle
      rw [hnone hruns] at hhandle
      cases hhandle
    exact ⟨h.creates (h.orderly.creates (hknown t hmem) hnew) hready (created_snoc log _)
      (statics_snoc log _) rfl, hready⟩
  rw [Machine.preparing, Machine.prepare, ht, if_neg hmarked]
  dsimp only
  rw [if_neg hmarked, hkept]
  cases hhandle : t.typeInitializer with
  | none =>
      obtain ⟨hledger, hready⟩ := hslots fun _ => hhandle
      exact ⟨hledger, hready, none, rfl⟩
  | some handle =>
      dsimp only
      by_cases hruns : machine.runInitializers = true
      · obtain ⟨m, hm, rfl⟩ := hsession.initializer hmem hhandle
        have hrun : runs = true := h.initializers.symm.trans hruns
        have hready : Ready runs (log ++ [.creates t, .starts t m]) t.id := by
          refine ⟨t, List.mem_append_right _ List.mem_cons_self, rfl, ?_⟩
          intro _ handle' hhandle'
          refine ⟨m, List.mem_append_right _ (List.mem_cons_of_mem _ List.mem_cons_self), ?_⟩
          exact Option.some.inj (hhandle.symm.trans hhandle')
        have hcreated : StaticLog.created (log ++ [.creates t, .starts t m])
            = log.created ++ [t.id] := by
          rw [List.append_cons, created_snoc, created_snoc]
          exact List.append_nil _
        have hstatics : StaticLog.statics (log ++ [.creates t, .starts t m])
            = (t.id, t.staticDefaults.map Value.toStack) :: log.statics := by
          rw [List.append_cons, statics_snoc, statics_snoc]
          rfl
        rw [if_pos hruns, hm]
        exact ⟨h.creates (h.orderly.creates_starts (hknown t hmem) hnew hrun hhandle) hready
          hcreated hstatics rfl, hready, some m, rfl⟩
      · have hnot : runs = true → t.typeInitializer = none :=
          fun hrun => absurd (h.initializers.trans hrun) hruns
        obtain ⟨hledger, hready⟩ := hslots hnot
        rw [if_neg hruns]
        exact ⟨hledger, hready, none, rfl⟩

end Ledger

end ManagedCode
