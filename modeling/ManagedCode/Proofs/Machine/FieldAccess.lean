import ManagedCode.Proofs.Machine.LiveObjects

/-!
# Access to fields

A field of an object is read by an instruction, which names it by its handle, or by a host, which
finds it by its name (`Session.Reads`), and it is written in the same two ways.  What has been
written is what both read afterwards, and no other field of the object, no other object, no array
and no static slot has changed (`Session.Assigns`).  Fields of one name that hide each other are
different fields, so writing one of them does not change the others.

All of this holds of every object that a machine has made, for all fields of its class and of the
bases of the class (`Project.fields_of_objects`).
-/

namespace ManagedCode

variable {ρ : Type}

/-! ## Instructions that are executed next -/

/-- A program executes an instruction next, and the budget of its machine allows that. -/
structure Execution.Executes (e : Execution) (i : Instruction) (f : Frame) (callers : List Frame)
    (machine : Machine) : Prop where
  frames : e.frames = f :: callers
  instruction : f.body.instructions[f.ip]? = some i
  budget : e.machine.tick = (.ok (), machine)

namespace Execution.Executes

variable {s : Session} {e : Execution} {i : Instruction} {f g : Frame} {callers : List Frame}
  {machine : Machine} {heap : Heap}

/-- The program does what the instruction asks for. -/
theorem step_request
    {request : Request} (h : e.Executes i f callers machine)
    (hexecute : Surroundings.execute ⟨s, machine.limits.maxStackDepth⟩ e.heap f i
      = .ok (request, heap)) :
  e.step s
    = Execution.serve s { machine := machine, heap := heap, frames := f :: callers } callers request
  := by
  rw [Execution.step]
  rw [h.frames]
  dsimp only
  rw [h.instruction]
  dsimp only
  rw [h.budget]
  dsimp only
  rw [hexecute]

/-- The program goes on in the frame. -/
theorem step_eq
    (h : e.Executes i f callers machine)
    (hexecute : Surroundings.execute ⟨s, machine.limits.maxStackDepth⟩ e.heap f i
      = .ok (.proceed g, heap)) :
  e.step s = .running { machine := machine, heap := heap, frames := g :: callers }
  :=
  h.step_request hexecute

/-- The instruction fails, and with it the program. -/
theorem step_error
    {error : Fault} (h : e.Executes i f callers machine)
    (hexecute : Surroundings.execute ⟨s, machine.limits.maxStackDepth⟩ e.heap f i = .error error) :
  e.step s = .finished machine e.heap (.error error)
  := by
  rw [Execution.step]
  rw [h.frames]
  dsimp only
  rw [h.instruction]
  dsimp only
  rw [h.budget]
  dsimp only
  rw [hexecute]
  rfl

theorem statics_eq (h : e.Executes i f callers machine) : machine.statics = e.machine.statics := by
  have hmachine := congrArg Prod.snd h.budget
  rw [Machine.tick] at hmachine
  dsimp only at hmachine
  split at hmachine
  · split at hmachine <;>
    · rw [← hmachine]
  · rw [← hmachine]

end Execution.Executes

/-! ## Reading and writing -/

/-- A field of an object has a value: an instruction that names the field pushes it, and a host
that finds the field under a name gets it in the form of the type. -/
structure Session.Reads (s : Session) (heap : Heap) (r : ObjectRef) (f : RealizedField)
    (v : Value) : Prop where
  slot : ∃ k, f.slot = .instance k ∧ heap.slot? r k = some v
  load : ∀ {e : Execution} {i : Instruction} {g : Frame} {callers : List Frame}
      {machine : Machine} {rest : List Value}, e.heap = heap → e.Executes i g callers machine →
    i.opcode = .ldfld → i.fieldRef = .ok f.handle → g.stack = .object r :: rest →
    rest.length < machine.limits.maxStackDepth →
      e.step s = .running
        { machine := machine
          heap := heap
          frames := { g with stack := v.toStack :: rest, ip := g.ip + 1 } :: callers }
  read : ∀ {host : HostState} {name : String}, host.heap = heap →
    s.fieldNamed r.type name = .ok f →
      (Host.readField s (.object r) name).exec host = (.ok (v.coerceTo f.type), host)

/-- A field of an object has got a value, and nothing else on the heap has changed: the other fields
of the object are read as before. -/
structure Session.Assigns (s : Session) (r : ObjectRef) (f : RealizedField) (v : Value)
    (heap heap' : Heap) : Prop where
  field : s.Reads heap' r f v
  fields : ∀ g ∈ s.instanceFields r.type, g ≠ f → ∀ u, s.Reads heap' r g u ↔ s.Reads heap r g u
  objects : ∀ r' : ObjectRef, r'.address ≠ r.address → heap'.slots r' = heap.slots r'
  rest : { heap' with objects := heap.objects } = heap

/-- Instructions and hosts read and write a field of an object.  An instruction stores the value
that is on the stack, and a host stores the value in the form of the type of the field. -/
structure Session.Accesses (s : Session) (heap : Heap) (r : ObjectRef) (f : RealizedField) :
    Prop where
  reads : ∃ v, s.Reads heap r f v
  store : ∀ {e : Execution} {i : Instruction} {g : Frame} {callers : List Frame}
      {machine : Machine} {v : Value} {rest : List Value}, e.heap = heap →
    e.Executes i g callers machine → i.opcode = .stfld → i.fieldRef = .ok f.handle →
    g.stack = v :: .object r :: rest →
      ∃ heap', s.Assigns r f v heap heap' ∧ machine.statics = e.machine.statics
        ∧ e.step s = .running
          { machine := machine
            heap := heap'
            frames := { g with stack := rest, ip := g.ip + 1 } :: callers }
  write : ∀ {host : HostState} {name : String} (v : Value), host.heap = heap →
    s.fieldNamed r.type name = .ok f →
      ∃ heap', s.Assigns r f (v.coerceTo f.type).toStack heap heap'
        ∧ (Host.writeField s (.object r) name v).exec host = (.ok (), { host with heap := heap' })

section

variable {s : Session} {heap heap' : Heap} {r : ObjectRef} {f : RealizedField} {k : Nat}
  {v : Value} {g : Frame} {i : Instruction} {rest : List Value}

theorem Surroundings.loadField_eq
    (limit : Nat) (hfield : s.fieldAt f.handle = .ok f) (hslot : f.slot = .instance k)
    (hvalue : heap.slot? r k = some v) (hi : i.fieldRef = .ok f.handle)
    (hstack : g.stack = .object r :: rest) (hroom : rest.length < limit) :
  (Surroundings.mk s limit).loadField heap g i
    = .ok { g with stack := v.toStack :: rest, ip := g.ip + 1 }
  := by
  have hpop : g.pop = .ok (.object r, { g with stack := rest }) := by
    rw [Frame.pop]
    rw [hstack]
  have hpush : Frame.push limit { g with stack := rest } v
      = .ok { g with stack := v.toStack :: rest } := by
    rw [Frame.push, if_pos hroom]
  simp only [loadField, Surroundings.push, Bind.bind, Except.bind, hi, hfield, hpop, hslot,
    hvalue, hpush]
  rfl

theorem Surroundings.storeField_error
    {reason : String} (limit : Nat) (hfield : s.fieldAt f.handle = .ok f)
    (hslot : f.slot = .instance k) (hset : heap.setSlot r k v = .error reason)
    (hi : i.fieldRef = .ok f.handle) (hstack : g.stack = v :: .object r :: rest) :
  (Surroundings.mk s limit).storeField heap g i = .error (.runtimeError reason)
  := by
  have hpop : g.pop = .ok (v, { g with stack := .object r :: rest }) := by
    rw [Frame.pop]
    rw [hstack]
  have hpop' : Frame.pop { g with stack := .object r :: rest }
      = .ok (.object r, { g with stack := rest }) := rfl
  simp only [storeField, Bind.bind, Except.bind, hi, hfield, hpop, hpop', hslot, hset]

theorem Surroundings.storeField_eq
    (limit : Nat) (hfield : s.fieldAt f.handle = .ok f) (hslot : f.slot = .instance k)
    (hset : heap.setSlot r k v = .ok heap') (hi : i.fieldRef = .ok f.handle)
    (hstack : g.stack = v :: .object r :: rest) :
  (Surroundings.mk s limit).storeField heap g i
    = .ok ({ g with stack := rest, ip := g.ip + 1 }, heap')
  := by
  have hpop : g.pop = .ok (v, { g with stack := .object r :: rest }) := by
    rw [Frame.pop]
    rw [hstack]
  have hpop' : Frame.pop { g with stack := .object r :: rest }
      = .ok (.object r, { g with stack := rest }) := rfl
  simp only [storeField, Bind.bind, Except.bind, hi, hfield, hpop, hpop', hslot, hset]
  rfl

theorem Host.exec_get (host : HostState) : (get : Host HostState).exec host = (.ok host, host) :=
  rfl

/-- A value that is in the slot of a field is read. -/
theorem Session.reads_of_slot
    (hfield : s.fieldAt f.handle = .ok f) (hslot : f.slot = .instance k)
    (hvalue : heap.slot? r k = some v) :
  s.Reads heap r f v
  := by
  refine ⟨⟨k, hslot, hvalue⟩, ?_, ?_⟩
  · rintro e i g callers machine rest rfl h hop hi hstack hroom
    apply h.step_eq
    rw [Surroundings.execute]
    rw [hop]
    dsimp only
    rw [Surroundings.loadField_eq _ hfield hslot hvalue hi hstack hroom]
    rfl
  · rintro host name rfl hname
    rw [Host.readField]
    simp only [Value.receiver, Host.lift, hname, pure_bind, hslot]
    rw [exec_bind, Host.exec_get]
    dsimp only
    rw [hvalue]
    rfl

end

theorem ok_of_toOption {ε α : Type} {x : Except ε α} {a : α} (h : x.toOption = some a) :
  x = .ok a
  := by
  cases x with
  | ok a' => exact congrArg Except.ok (Option.some.inj h)
  | error e => cases h

/-- A field that is found under a name is one of the fields of the objects, if objects have it. -/
theorem Session.mem_instanceFields
    {s : Session} {x : TypeId} {name : String} {f : RealizedField}
    (hname : s.fieldNamed x name = .ok f) (hinstance : f.isInstance = true) :
  f ∈ s.instanceFields x
  := by
  rw [fieldNamed, findAt, findOnLineage] at hname
  split at hname
  · next found hfound =>
    cases hname
    split at hfound
    · next found' _ hsome =>
      cases hfound
      obtain ⟨t, ht, hfield⟩ := List.exists_of_findSome?_eq_some hsome
      apply List.mem_flatMap.mpr
      refine ⟨t, List.mem_reverse.mpr ht, ?_⟩
      exact List.mem_filter.mpr ⟨List.mem_of_find?_eq_some hfield, hinstance⟩
    · cases hfound
    · cases hfound
  · cases hname
  · cases hname

/-! ## Fields of objects that machines have made -/

namespace Project

variable {p : Project} {verify : Bool} {heap heap' : Heap} {r : ObjectRef} {t : RealizedType}
  {f g : RealizedField} {k : Nat} {v : Value}

theorem Slotted.type_eq (h : p.Slotted heap r t) : t.id = r.type := by
  simpa using List.find?_some h.realized

theorem Slotted.mem (h : p.Slotted heap r t) : t ∈ p.session.types :=
  List.mem_of_find?_eq_some h.realized

/-- A field of an object has a slot and a value. -/
theorem Slotted.exists_slot
    (h : p.Slotted heap r t) (hlayered : Layered verify p.decl? p.session.types)
    (hf : f ∈ p.session.instanceFields r.type) :
  ∃ k v, f.slot = .instance k ∧ k < (heap.slots r).length ∧ heap.slot? r k = some v
    ∧ p.session.Reads heap r f v
  := by
  rw [← h.type_eq] at hf
  obtain ⟨k, hk, hslot⟩ := (hlayered.laidOut h.mem).slot hf
  rw [← h.length] at hk
  have hvalue : heap.slot? r k = some (heap.slots r)[k] := List.getElem?_eq_getElem hk
  exact ⟨k, _, hslot, hk, hvalue,
    Session.reads_of_slot (hlayered.fieldAt_eq h.mem hf) hslot hvalue⟩

/-- Writing the slot of a field assigns to the field, whatever other slots the object has. -/
theorem assigns_of_setSlot
    (hlayered : Layered verify p.decl? p.session.types) (ht : t ∈ p.session.types)
    (hid : t.id = r.type) (hf : f ∈ p.session.instanceFields r.type) (hslot : f.slot = .instance k)
    (hset : heap.setSlot r k v = .ok heap') :
  p.session.Assigns r f v heap heap'
  := by
  rw [Heap.setSlot] at hset
  split at hset
  rotate_left
  · cases hset
  next hk =>
  cases hset
  have hslots := fun r' => Heap.slots_setSlot (Heap.address_of_slots hk) r' ((heap.slots r).set k v)
  rw [← hid] at hf
  refine ⟨?_, ?_, ?_, rfl⟩
  · apply Session.reads_of_slot (hlayered.fieldAt_eq ht hf) hslot
    rw [Heap.slot?, hslots, if_pos rfl, List.getElem?_set_self hk]
  · intro g hg hne u
    rw [← hid] at hg
    have hfield := hlayered.fieldAt_eq ht hg
    have hsame : ∀ j, g.slot = .instance j → Heap.slot? { heap with
        objects := heap.objects.setIfInBounds r.address ((heap.slots r).set k v) } r j
          = heap.slot? r j := by
      intro j hj
      have hother : k ≠ j := by
        rintro rfl
        apply hne
        apply (hlayered.laidOut ht).eq_of_slot hf hg
        rw [hj, hslot]
      rw [Heap.slot?, hslots, if_pos rfl, List.getElem?_set_ne hother, Heap.slot?]
    constructor
    · intro hreads
      obtain ⟨j, hj, hvalue⟩ := hreads.slot
      exact Session.reads_of_slot hfield hj ((hsame j hj).symm.trans hvalue)
    · intro hreads
      obtain ⟨j, hj, hvalue⟩ := hreads.slot
      exact Session.reads_of_slot hfield hj ((hsame j hj).trans hvalue)
  · intro r' hr'
    rw [hslots, if_neg hr']

/-- All slots of an object can be written. -/
theorem Slotted.assigns
    (h : p.Slotted heap r t) (hlayered : Layered verify p.decl? p.session.types)
    (hf : f ∈ p.session.instanceFields r.type) (hslot : f.slot = .instance k) (v : Value) :
  ∃ heap', heap.setSlot r k v = .ok heap' ∧ p.session.Assigns r f v heap heap'
  := by
  obtain ⟨k', -, hslot', hk, -⟩ := h.exists_slot hlayered hf
  rw [hslot] at hslot'
  cases hslot'
  have hset : heap.setSlot r k v = .ok { heap with
      objects := heap.objects.setIfInBounds r.address ((heap.slots r).set k v) } := by
    rw [Heap.setSlot]
    rw [if_pos hk]
  exact ⟨_, hset, assigns_of_setSlot hlayered h.mem h.type_eq hf hslot hset⟩

theorem Slotted.accesses
    (h : p.Slotted heap r t) (hlayered : Layered verify p.decl? p.session.types)
    (hf : f ∈ p.session.instanceFields r.type) :
  p.session.Accesses heap r f
  := by
  obtain ⟨k, u, hslot, -, -, hreads⟩ := h.exists_slot hlayered hf
  have hfield : p.session.fieldAt f.handle = .ok f := by
    rw [← h.type_eq] at hf
    exact hlayered.fieldAt_eq h.mem hf
  refine ⟨⟨u, hreads⟩, ?_, ?_⟩
  · rintro e i g callers machine v rest rfl hexecutes hop hi hstack
    obtain ⟨heap', hset, hassigns⟩ := h.assigns hlayered hf hslot v
    refine ⟨heap', hassigns, hexecutes.statics_eq, ?_⟩
    apply hexecutes.step_eq
    rw [Surroundings.execute]
    rw [hop]
    dsimp only
    rw [Surroundings.storeField_eq _ hfield hslot hset hi hstack]
    rfl
  · rintro host name v rfl hname
    obtain ⟨heap', hset, hassigns⟩ := h.assigns hlayered hf hslot (v.coerceTo f.type).toStack
    refine ⟨heap', hassigns, ?_⟩
    rw [Host.writeField]
    simp only [Value.receiver, Host.lift, hname, pure_bind, hslot]
    rw [exec_bind, Host.exec_get]
    dsimp only
    rw [hset]
    rfl

/-- In every session, the slots of the fields of a class and its bases are those of its objects, one
after the other, and start with the values of the fields.  So of every object that a machine has
made, all these fields are read as they have been written, and writing one of them changes no other
one, no other object and no static slot.  The history declares fewer than `2 ^ 32 - 1` types, so
that 32 bits tell their ids apart. -/
theorem fields_of_objects
    (verify : Bool) (history : List (HostEvent ρ))
    (hnumbered : ((empty verify).run history).session.Numbered) :
  (∀ before, before <+: history → ((empty verify).run before).NumbersFit)
  ∧ (∀ t ∈ ((empty verify).run history).session.types, ((empty verify).run history).LaidOut t)
  ∧ ∀ heap r, Lives verify r history heap →
      ∀ f ∈ ((empty verify).run history).session.instanceFields r.type,
        ((empty verify).run history).session.Accesses heap r f
  := by
  refine ⟨fun before => numbersFit_run verify hnumbered, laidOut_run verify history, ?_⟩
  intro heap r h f hf
  obtain ⟨t, hslotted⟩ := h.slots
  exact hslotted.accesses (stacked_run verify history) hf

/-- Behind a static field, the class `Derived` has a field for each object, with the name of a
field of its base. -/
def shadowing : List (HostEvent Unit) :=
  [ .build (.openUnit "Layout"),
    .build (.change 0 (.declareType "Base" .classType {} none)),
    .build (.change 0 (.defineField ⟨1⟩ "a" (.primitive .i64) { default := some (.i64 1) })),
    .build (.change 0 (.declareType "Derived" .classType
      { base := some (.defined ⟨⟨1⟩, .classType⟩) } none)),
    .build (.change 0 (.defineField ⟨2⟩ "s" (.primitive .i32) { modifier := .isStatic })),
    .build (.change 0 (.defineField ⟨2⟩ "a" (.primitive .i64) {})),
    .build (.change 0 (.defineConstructor ⟨2⟩ {} .minimal)),
    .build (.change 0 .finalize)]

/-- When a host writes the field that hides the other one, the hidden field keeps its value. -/
theorem fields_of_shadowing :
  ∃ (host host' : HostState) (r : ObjectRef) (f g : RealizedField) (u : Value),
    (Host.create ((empty true).run shadowing).session ⟨2⟩ []).exec ⟨{}, {}⟩
        = (.ok (.object r), host)
      ∧ f.handle = ⟨⟨2⟩, 1⟩ ∧ g.handle = ⟨⟨1⟩, 0⟩ ∧ g.name = "a"
      ∧ (Host.writeField ((empty true).run shadowing).session (.object r) "a" (.i32 5)).exec host
        = (.ok (), host')
      ∧ ((empty true).run shadowing).session.Reads host'.heap r f (.i64 5)
      ∧ ((empty true).run shadowing).session.Reads host.heap r g u
      ∧ ((empty true).run shadowing).session.Reads host'.heap r g u
  := by
  have hcreated : ((Host.create ((empty true).run shadowing).session ⟨2⟩ []).exec ⟨{}, {}⟩).1.toOption.bind
      Value.asObject? = some ⟨0, ⟨2⟩⟩ := by
    decide +kernel
  have hfields : (((empty true).run shadowing).session.fieldNamed ⟨2⟩ "a").toOption.map
      (fun f => (f.handle, f.type, f.isInstance)) = some (⟨⟨2⟩, 1⟩, .primitive .i64, true) := by
    decide +kernel
  have hhidden : ∃ g ∈ ((empty true).run shadowing).session.instanceFields ⟨2⟩,
      g.handle = ⟨⟨1⟩, 0⟩ ∧ g.name = "a" := by
    decide +kernel
  obtain ⟨-, -, haccesses⟩ := fields_of_objects true shadowing (by decide +kernel)
  have hlives := @lives_create Unit true shadowing ⟨2⟩ [] ⟨{}, {}⟩
  generalize ((empty true).run shadowing).session = s at *
  cases hcreate : (Host.create s ⟨2⟩ []).exec ⟨{}, {}⟩ with
  | mk answer host =>
      rw [hcreate] at hcreated
      obtain ⟨v, hanswer, hobject⟩ := Option.bind_eq_some_iff.mp hcreated
      obtain rfl := ok_of_toOption hanswer
      obtain ⟨r, rfl, hlive⟩ := hlives hcreate
      obtain rfl := Option.some.inj hobject
      obtain ⟨f, hnamed, hf⟩ := Option.map_eq_some_iff.mp hfields
      have hname := ok_of_toOption hnamed
      obtain ⟨hhandle, hrest⟩ := Prod.mk.inj hf
      obtain ⟨htype, hinstance⟩ := Prod.mk.inj hrest
      obtain ⟨g, hg, hghandle, hgname⟩ := hhidden
      have hmem := Session.mem_instanceFields hname hinstance
      obtain ⟨heap', hassigns, hwrite⟩ :=
        (haccesses host.heap _ hlive f hmem).write (.i32 5) rfl hname
      have hother : g ≠ f := by
        rintro rfl
        rw [hghandle] at hhandle
        cases hhandle
      obtain ⟨u, hbefore⟩ := (haccesses host.heap _ hlive g hg).reads
      have hafter := (hassigns.fields g hg hother u).mpr hbefore
      refine ⟨host, _, _, f, g, u, rfl, hhandle, hghandle, hgname, hwrite, ?_, hbefore, hafter⟩
      have hstored := hassigns.field
      rw [htype] at hstored
      exact hstored

end Project

end ManagedCode
