import ManagedCode.Proofs.Machine.FieldLayout
import ManagedCode.Proofs.Machine.HostCalls
import ManagedCode.Proofs.Machine.Limits
import ManagedCode.Proofs.Machine.LiveCalls

/-!
# Objects that live on

Nothing that machines do takes an object from the heap or changes how many slots it has
(`Heap.Grows`): instructions and hosts write into slots that there are.  An object that has been
made therefore has the slots of its class for as long as the session knows the class
(`Project.Lives.slots`).
-/

namespace ManagedCode

variable {ρ : Type}

/-! ## Heaps -/

/-- The objects of a heap have as many slots on another one. -/
def Heap.Grows (h h' : Heap) : Prop :=
  ∀ r : ObjectRef, r.address < h.objects.size →
    r.address < h'.objects.size ∧ (h'.slots r).length = (h.slots r).length

namespace Heap

variable {h h' h'' : Heap} {r : ObjectRef} {i : Nat} {v : Value}

/-- A heap may stay as it is. -/
theorem Grows.refl (h : Heap) : h.Grows h :=
  fun _ hr => ⟨hr, rfl⟩

/-- What has grown may grow on. -/
theorem Grows.trans (hgrows : h.Grows h') (hgrows' : h'.Grows h'') : h.Grows h'' := by
  intro r hr
  obtain ⟨hr', hlength⟩ := hgrows r hr
  obtain ⟨hr'', hlength'⟩ := hgrows' r hr'
  exact ⟨hr'', hlength'.trans hlength⟩

/-- A heap with the same objects has grown by nothing. -/
theorem grows_of_objects (hobjects : h'.objects = h.objects) : h.Grows h' := by
  intro r hr
  rw [slots, slots, hobjects]
  exact ⟨hr, rfl⟩

/-- What is on the heap after a slot has been written. -/
theorem setSlot_ok (hset : h.setSlot r i v = .ok h') :
  h' = { h with objects := h.objects.setIfInBounds r.address ((h.slots r).set i v) }
  := by
  rw [setSlot] at hset
  split at hset
  · exact (Except.ok.inj hset).symm
  · cases hset

/-- What has slots is on the heap. -/
theorem address_of_slots (hi : i < (h.slots r).length) : r.address < h.objects.size := by
  by_contra hout
  rw [slots, Array.getElem?_eq_none (Nat.le_of_not_lt hout)] at hi
  cases hi

/-- Writing a slot of an object changes this object only. -/
theorem slots_setSlot (hr : r.address < h.objects.size) (r' : ObjectRef) (slots : List Value) :
  Heap.slots { h with objects := h.objects.setIfInBounds r.address slots } r'
    = if r'.address = r.address then slots else h.slots r'
  := by
  rw [Heap.slots, Heap.slots]
  rw [Array.getElem?_setIfInBounds]
  by_cases hsame : r'.address = r.address
  · rw [if_pos hsame.symm, if_pos hsame, if_pos hr, Option.getD_some]
  · rw [if_neg (Ne.symm hsame), if_neg hsame]

/-- A write of a slot leaves as many slots. -/
theorem grows_setSlot (hset : h.setSlot r i v = .ok h') : h.Grows h' := by
  rw [setSlot_ok hset]
  intro r' hr'
  refine ⟨?_, ?_⟩
  · rwa [Array.size_setIfInBounds]
  · by_cases hr : r.address < h.objects.size
    · rw [slots_setSlot hr]
      split
      · next hsame => rw [List.length_set, Heap.slots, Heap.slots, hsame]
      · rfl
    · rw [Array.setIfInBounds_eq_of_size_le (Nat.not_lt.mp hr)]

/-- Another object is put behind those that there are. -/
theorem grows_allocObject (h : Heap) (type : TypeId) (slots : List Value) :
  h.Grows (h.allocObject type slots).2
  := by
  intro r hr
  rw [allocObject, Heap.slots, Heap.slots]
  dsimp only
  rw [Array.getElem?_push_lt hr, Array.size_push, Array.getElem?_eq_getElem hr]
  exact ⟨Nat.lt_succ_of_lt hr, rfl⟩

/-- A new object has the slots that it was made with. -/
theorem slots_allocObject (h : Heap) (type : TypeId) (slots : List Value) :
  (h.allocObject type slots).1.address < (h.allocObject type slots).2.objects.size
    ∧ (h.allocObject type slots).2.slots (h.allocObject type slots).1 = slots
  := by
  rw [allocObject, Heap.slots]
  dsimp only
  rw [Array.getElem?_push_size, Array.size_push]
  exact ⟨Nat.lt_succ_self _, rfl⟩

end Heap

/-! ## Instructions -/

namespace Surroundings

variable (s : Surroundings) (heap : Heap) (f : Frame)

/-- Writing a field is a write of a slot. -/
theorem storeField_grows (i : Instruction) :
  Yields True (fun r => heap.Grows r.2) (s.storeField heap f i)
  := by
  apply Yields.bind (Yields.any i.fieldRef)
  intro handle _
  apply Yields.bind (Yields.any (s.session.fieldAt handle))
  intro field _
  apply Yields.bind (Yields.any f.pop)
  rintro ⟨v, g⟩ _
  apply Yields.bind (Yields.any g.pop)
  rintro ⟨receiver, g⟩ _
  dsimp only
  split
  · trivial
  · split
    · next heap' hset => exact Heap.grows_setSlot hset
    · trivial
  · trivial

/-- A box is no object. -/
theorem box_objects (t : TypeRef) :
  Yields True (fun r => r.2.objects = heap.objects) (s.box heap f t)
  := by
  apply Yields.bind (Yields.any f.pop)
  rintro ⟨v, g⟩ _
  dsimp only
  split
  · exact Yields.bind (Yields.any _) fun _ _ => rfl
  · exact Yields.bind (Yields.any _) fun _ _ => rfl

/-- Nor is an array. -/
theorem newArray_objects (element : TypeRef) :
  Yields True (fun r => r.2.objects = heap.objects) (s.newArray heap f element)
  := by
  apply Yields.bind (Yields.any f.pop)
  rintro ⟨length, g⟩ _
  dsimp only
  split
  · trivial
  · split
    · trivial
    · exact Yields.bind (Yields.any _) fun _ _ => rfl

/-- Writing an item leaves the objects as they are. -/
theorem storeElement_objects :
  Yields True (fun r => r.2.objects = heap.objects) (storeElement heap f)
  := by
  apply Yields.bind (Yields.any f.pop)
  rintro ⟨v, g⟩ _
  apply Yields.bind (Yields.any g.pop)
  rintro ⟨index, g⟩ _
  apply Yields.bind (Yields.any g.pop)
  rintro ⟨array, g⟩ _
  apply Yields.bind (Yields.any (expectArray array))
  intro r _
  apply Yields.bind (Yields.any (checkIndex index (heap.length r)))
  intro i _
  rfl

/-- Of all instructions only one writes to objects. -/
theorem execute_objects {i : Instruction} (hop : i.opcode ≠ .stfld) :
  Yields True (fun r => r.2.objects = heap.objects) (s.execute heap f i)
  := by
  rw [execute]
  cases hi : i.opcode with
  | stfld => exact absurd hi hop
  | box =>
      have hbox : Yields True (fun r => r.2.objects = heap.objects)
          (i.typeRef >>= fun t => s.box heap f (f.resolve t)) :=
        Yields.bind (Yields.any i.typeRef) fun t _ => s.box_objects heap f _
      exact hbox.map fun _ h => h
  | newarr =>
      have harray : Yields True (fun r => r.2.objects = heap.objects)
          (i.typeRef >>= fun t => s.newArray heap f (f.resolve t)) :=
        Yields.bind (Yields.any i.typeRef) fun t _ => s.newArray_objects heap f _
      exact harray.map fun _ h => h
  | stelem => exact (storeElement_objects heap f).map fun _ h => h
  | _ => exact (Yields.any _).map fun _ _ => rfl

/-- No instruction takes an object from the heap. -/
theorem execute_grows (i : Instruction) :
  Yields True (fun r => heap.Grows r.2) (s.execute heap f i)
  := by
  by_cases hop : i.opcode = .stfld
  · rw [execute, hop]
    exact (s.storeField_grows heap f i).map fun _ h => h
  · exact (s.execute_objects heap f hop).mono id fun _ h => Heap.grows_of_objects h

end Surroundings

/-! ## Programs -/

namespace Execution

/-- A method is entered without the heap. -/
theorem enter_heap
    (e : Execution) (m : RealizedMethod) (args : List Value) (typeArgs : List TypeRef)
    (resume : Resume) :
  (e.enter m args typeArgs resume).host.heap = e.heap
  := congrArg HostState.heap (e.enter_host m args typeArgs resume)

/-- A frame goes on without it. -/
theorem complete_heap (e : Execution) (f : Frame) (callers : List Frame) (v : Value) :
  (e.complete f callers v).host.heap = e.heap
  := congrArg HostState.heap (e.complete_host f callers v)

/-- An instruction that goes on may make an object. -/
theorem perform_grows (e : Execution) (f : Frame) (callers : List Frame) (rest : Deferred) :
  e.heap.Grows (e.perform f callers rest).host.heap
  := by
  cases rest with
  | load owner slot =>
      rw [perform]
      split
      · rw [complete_heap]
        exact .refl _
      · exact .refl _
  | store owner slot v =>
      rw [perform]
      split <;> exact .refl _
  | call m args typeArgs =>
      rw [perform, enter_heap]
      exact .refl _
  | construct t m args typeArgs =>
      rw [perform, enter_heap]
      exact e.heap.grows_allocObject t.id _

/-- So may one that has a type set up. -/
theorem prepare_grows (session : Session) (e : Execution) (f : Frame) (callers : List Frame)
    (owner : TypeId) (rest : Deferred) :
  e.heap.Grows (e.prepare session f callers owner rest).host.heap
  := by
  rw [prepare]
  split
  · exact .refl _
  · next machine _ => exact perform_grows { e with machine := machine } f callers rest
  · rw [enter_heap]
    exact .refl _

/-- So may one that has waited for a return. -/
theorem finish_grows (e : Execution) (f : Frame) (callers : List Frame) (v : Value) :
  e.heap.Grows (e.finish f callers v).host.heap
  := by
  cases callers with
  | nil => exact .refl _
  | cons caller callers =>
      rw [finish]
      split
      · rw [complete_heap]
        exact .refl _
      · exact .refl _
      · rw [complete_heap]
        exact .refl _
      · apply perform_grows

/-- Whatever is asked for leaves the objects that there are. -/
theorem serve_grows (session : Session) (e : Execution) (callers : List Frame)
    (request : Request) :
  e.heap.Grows (e.serve session callers request).host.heap
  := by
  cases request with
  | proceed f => exact .refl _
  | finish v =>
      rw [serve]
      split
      · apply finish_grows
      · exact .refl _
  | raise f exception =>
      rw [serve, raise]
      split <;> exact .refl _
  | invoke f m args typeArgs resume =>
      rw [serve, enter_heap]
      exact .refl _
  | prepare f owner rest => apply prepare_grows

/-- No step takes slots from an object. -/
theorem step_grows (session : Session) (e : Execution) :
  e.heap.Grows (e.step session).host.heap
  := by
  rw [step]
  split
  · exact .refl _
  · next f callers _ =>
    split
    · exact .refl _
    · next i _ =>
      split
      · exact .refl _
      · next machine _ =>
        dsimp only
        split
        · exact .refl _
        · next request heap hexecute =>
          have hgrows := (Surroundings.execute_grows _ e.heap f i).of_ok hexecute
          exact hgrows.trans (serve_grows session { e with machine := machine, heap := heap } _ _)

/-- Nor does any number of steps. -/
theorem run_grows (session : Session) (fuel : Nat) (e : Execution) :
  e.heap.Grows (e.run session fuel).host.heap
  := by
  induction fuel generalizing e with
  | zero => exact .refl _
  | succ fuel ih =>
      have hstep := e.step_grows session
      rw [run]
      split
      · next e' hrunning =>
        rw [hrunning] at hstep
        exact hstep.trans (ih e')
      · exact hstep

end Execution

/-! ## Calls of the host -/

/-- So does a run that the host starts. -/
theorem Launch.status_grows (session : Session) (l : Launch) :
  l.host.heap.Grows (l.status session).host.heap
  := by
  have hentered : l.entered.host.heap = l.host.heap := l.start.enter_heap _ _ _ _
  rw [status]
  split
  · next e hrunning =>
    rw [hrunning] at hentered
    rw [← hentered]
    apply e.run_grows
  · rw [hentered]
    exact .refl _

namespace HostState

variable {session : Session} {host host' : HostState} {launches : List Launch}

/-- So does every change that a call of the host makes. -/
theorem Changes.grows (h : host.Changes session host') : host.heap.Grows host'.heap := by
  cases h with
  | prepare id => exact .refl _
  | setStatic hset => exact .refl _
  | allocObject id slots => exact host.heap.grows_allocObject id slots
  | setSlot hset => exact Heap.grows_setSlot hset

/-- So do all of them together. -/
theorem Course.grows (h : host.Course session launches host') : host.heap.Grows host'.heap := by
  induction h with
  | refl => exact .refl _
  | change hchange _ ih => exact hchange.grows.trans ih
  | run l _ ih => exact (l.status_grows session).trans ih

end HostState

/-- No call of a host takes slots from an object. -/
theorem HostCall.grows (session : Session) (call : HostCall) (host : HostState) :
  host.heap.Grows ((call.perform session).exec host).2.heap
  := (call.runs session host).course.grows

/-! ## Objects that machines have made -/

namespace Project

/-- An object that a machine has made for a host or for an instruction, in the session that a
history leads to, is on a heap: whatever steps and calls have followed, on any machine, and
whatever has happened to the session but that it was cleared. -/
inductive Lives (verify : Bool) (r : ObjectRef) : List (HostEvent ρ) → Heap → Prop
  | made {history : List (HostEvent ρ)} {t : RealizedType} {host host' : HostState}
      (ht : t ∈ ((empty verify).run history).session.types)
      (hmake : (Host.makeObject ((empty verify).run history).session t).exec host
        = (.ok (.object r), host')) :
      Lives verify r history host'.heap
  | constructed {history : List (HostEvent ρ)} {t : RealizedType}
      (ht : t ∈ ((empty verify).run history).session.types) {e : Execution} {f : Frame}
      {callers : List Frame} {m : RealizedMethod} {args : List Value} {typeArgs : List TypeRef}
      (hr : r = (e.heap.allocObject t.id (t.instanceDefaults.map Value.toStack)).1) :
      Lives verify r history (e.perform f callers (.construct t m args typeArgs)).host.heap
  | step {history : List (HostEvent ρ)} {e : Execution} (h : Lives verify r history e.heap) :
      Lives verify r history (e.step ((empty verify).run history).session).host.heap
  | call {history : List (HostEvent ρ)} {host : HostState} (call : HostCall)
      (h : Lives verify r history host.heap) :
      Lives verify r history
        ((call.perform ((empty verify).run history).session).exec host).2.heap
  | event {history : List (HostEvent ρ)} {heap : Heap} (e : HostEvent ρ) (hclear : e ≠ .clear)
      (h : Lives verify r history heap) :
      Lives verify r (history ++ [e]) heap

/-- An object has the slots of its class. -/
structure Slotted (p : Project) (heap : Heap) (r : ObjectRef) (t : RealizedType) : Prop where
  realized : p.session.realized? r.type = some t
  address : r.address < heap.objects.size
  length : (heap.slots r).length = t.instanceDefaults.length

variable {p : Project} {heap heap' : Heap} {r : ObjectRef} {t : RealizedType}

/-- An object keeps its slots as the heap grows. -/
theorem Slotted.grows (h : p.Slotted heap r t) (hgrows : heap.Grows heap') :
  p.Slotted heap' r t
  := by
  obtain ⟨haddress, hlength⟩ := hgrows r h.address
  exact ⟨h.realized, haddress, hlength.trans h.length⟩

/-- A new object has them. -/
theorem slotted_allocObject (heap : Heap) (ht : p.session.realized? t.id = some t) :
  p.Slotted (heap.allocObject t.id (t.instanceDefaults.map Value.toStack)).2
    (heap.allocObject t.id (t.instanceDefaults.map Value.toStack)).1 t
  := by
  obtain ⟨haddress, hslots⟩ := heap.slots_allocObject t.id (t.instanceDefaults.map Value.toStack)
  refine ⟨ht, haddress, ?_⟩
  rw [hslots, List.length_map]

/-- An object that the host makes has the slots of its class. -/
theorem slotted_makeObject
    {host host' : HostState} (ht : p.session.realized? t.id = some t)
    (hmake : (Host.makeObject p.session t).exec host = (.ok (.object r), host')) :
  p.Slotted host'.heap r t
  := by
  rw [Host.makeObject] at hmake
  split at hmake
  · cases hmake
  · obtain ⟨⟨⟩, host₁, -, hmake⟩ := exists_of_exec_bind_ok hmake
    cases hmake
    exact slotted_allocObject host₁.heap ht

/-- Throughout its life an object has the slots of its class. -/
theorem Lives.slots {verify : Bool} {history : List (HostEvent ρ)}
    (h : Lives verify r history heap) :
  ∃ t, ((empty verify).run history).Slotted heap r t
  := by
  induction h with
  | made ht hmake =>
      have hrealized := (stacked_run verify _).find ht
      exact ⟨_, slotted_makeObject hrealized hmake⟩
  | @constructed history t ht e f callers m args typeArgs hr =>
      have hrealized := (stacked_run verify history).find ht
      refine ⟨t, ?_⟩
      rw [hr, Execution.perform, Execution.enter_heap]
      exact slotted_allocObject e.heap hrealized
  | @step history e _ ih =>
      obtain ⟨t, hslotted⟩ := ih
      exact ⟨t, hslotted.grows (e.step_grows _)⟩
  | @call history host call _ ih =>
      obtain ⟨t, hslotted⟩ := ih
      exact ⟨t, hslotted.grows (call.grows _ host)⟩
  | @event history heap e hclear _ ih =>
      obtain ⟨t, hslotted⟩ := ih
      refine ⟨t, ?_, hslotted.address, hslotted.length⟩
      rw [run_append]
      apply ((sound_empty verify).run history).realized?_run _ hslotted.realized
      simpa using Ne.symm hclear

/-! ## Objects that hosts construct -/

section

variable {verify : Bool} {history : List (HostEvent ρ)}

/-- An object lives on through a run. -/
theorem Lives.run (fuel : Nat) {e : Execution} (h : Lives verify r history e.heap) :
  Lives verify r history (e.run ((empty verify).run history).session fuel).host.heap
  := by
  induction fuel generalizing e with
  | zero => exact h
  | succ fuel ih =>
      have hstep := h.step
      rw [Execution.run]
      split
      · next e' hrunning =>
        rw [hrunning] at hstep
        exact ih hstep
      · exact hstep

/-- An object lives on through a run that the host starts. -/
theorem Lives.launch {l : Launch} (h : Lives verify r history l.host.heap) :
  Lives verify r history (l.status ((empty verify).run history).session).host.heap
  := by
  have hentered : l.entered.host.heap = l.host.heap := l.start.enter_heap _ _ _ _
  rw [← hentered] at h
  rw [Launch.status]
  split
  · next e hrunning =>
    rw [hrunning] at h
    exact h.run _
  · exact h

/-- An answer leaves the host as it is. -/
theorem lift_unchanged
    {α : Type} {answer : Except Fault α} {a : α} {host host' : HostState}
    (h : (Host.lift answer).exec host = (.ok a, host')) :
  host' = host
  := by
  cases answer with
  | ok a => exact (Prod.mk.inj h).2.symm
  | error error => cases h

/-- What a host gets when it constructs an object is an object that a machine has made. -/
theorem lives_construct
    {m : RealizedMethod} {args : List Value} {host host' : HostState} {v : Value}
    (ht : t ∈ ((empty verify).run history).session.types)
    (h : (Host.construct ((empty verify).run history).session t m args).exec host = (.ok v, host')) :
  ∃ r, v = .object r ∧ Lives verify r history host'.heap
  := by
  rw [Host.construct] at h
  obtain ⟨object, host₁, hmake, hrest⟩ := exists_of_exec_bind_ok h
  obtain ⟨r, rfl, -⟩ := Host.makeObject_makes ((stacked_run verify history).find ht) hmake
  have hmade : Lives verify r history host₁.heap := .made ht hmake
  obtain ⟨bound, host₂, hbound, hconstructor⟩ := exists_of_exec_bind_ok hrest
  obtain rfl := lift_unchanged hbound
  obtain ⟨result, host₃, hrun, hanswer⟩ := exists_of_exec_bind_ok hconstructor
  cases hanswer
  refine ⟨r, rfl, ?_⟩
  rw [Host.exec_execute] at hrun
  split at hrun
  · cases hrun
  · rw [← (Prod.mk.inj hrun).2]
    exact Lives.launch (l := ⟨host₂, m, .object r :: bound, []⟩) hmade

/-- So is what it gets when it creates one. -/
theorem lives_create
    {id : TypeId} {args : List Value} {host host' : HostState} {v : Value}
    (h : (Host.create ((empty verify).run history).session id args).exec host = (.ok v, host')) :
  ∃ r, v = .object r ∧ Lives verify r history host'.heap
  := by
  rw [Host.create] at h
  obtain ⟨t, host₁, ht, hrest⟩ := exists_of_exec_bind_ok h
  rw [Session.typeAt] at ht
  split at ht
  · next t' hfound =>
    cases ht
    split at hrest
    · exact lives_construct (List.mem_of_find?_eq_some hfound) hrest
    · cases hrest
  · cases ht

end

end Project

end ManagedCode
