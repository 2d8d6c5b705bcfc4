import ManagedCode.Proofs.Machine.FrameContents
import ManagedCode.Proofs.Machine.LiveObjects
import ManagedCode.Proofs.Machine.Worlds

/-!
# Booleans inside of machines

A boolean of the host is an integer inside of a machine.  Values get onto an evaluation stack by a
push, which converts them, or from there into locals and slots; what slots and locals start with
is converted as well.  So no value on a stack, in a local, in a slot of a type or in a slot of an
object that a machine has made has the form of a boolean, at any moment (`World.after_internal`).
-/

namespace ManagedCode

open Relation

variable {ρ : Type}

/-- The form of values inside of a machine: none is a boolean of the host. -/
def Value.Internal (v : Value) : Prop :=
  ∀ b, v ≠ .bool b

namespace Value

/-- What is pushed is in stack form. -/
theorem internal_toStack (v : Value) : v.toStack.Internal := by
  cases v <;> rintro b ⟨⟩

theorem internal_toStacks (vs : List Value) : ∀ v ∈ vs.map toStack, v.Internal := by
  intro v hv
  obtain ⟨u, -, rfl⟩ := List.mem_map.mp hv
  apply internal_toStack

end Value

/-- Storing a value in one place. -/
theorem forall_mem_set
    {α : Type} {P : α → Prop} {l : List α} {i : Nat} {a : α} (hl : ∀ b ∈ l, P b) (ha : P a) :
  ∀ b ∈ l.set i a, P b
  := by
  intro b hb
  obtain hb | rfl := List.mem_or_eq_of_mem_set hb
  · exact hl b hb
  · exact ha

/-! ## Frames -/

/-- What waits for the initializer of a type stores a value of internal form. -/
def Deferred.Internal : Deferred → Prop
  | store _ _ v => v.Internal
  | _ => True

def Phase.Internal : Phase → Prop
  | waiting (.perform rest) => rest.Internal
  | _ => True

/-- The values on the stack and in the locals of a frame have internal form. -/
structure Frame.Internal (f : Frame) : Prop where
  stack : ∀ v ∈ f.stack, v.Internal
  locals : ∀ v ∈ f.locals, v.Internal

structure Activation.Internal (a : Activation) : Prop where
  frame : a.frame.Internal
  phase : a.phase.Internal

namespace Frame

variable {f : Frame}

/-- A frame starts with its locals in stack form. -/
theorem internal_enter (m : RealizedMethod) (body : MethodBody) (args : List Value)
    (typeArgs : List TypeRef) (resume : Resume) :
  (enter m body args typeArgs resume).Internal
  := by
  constructor
  · rintro v ⟨⟩
  · intro v hv
    obtain ⟨t, -, rfl⟩ := List.mem_map.mp hv
    apply Value.internal_toStack

/-- The values of a frame are of internal form if each value that it holds is. -/
theorem internal_iff : f.Internal ↔ f.Holds Value.Internal (∀ v ∈ ·, v.Internal) :=
  ⟨fun h => ⟨h.stack, h.locals⟩, fun h => ⟨h.stack, h.locals⟩⟩

end Frame

theorem Activation.internal_iff {a : Activation} :
  a.Internal ↔ a.Holds Value.Internal (∀ v ∈ ·, v.Internal)
  := by
  have hphase : a.phase.Internal ↔ a.phase.Holds Value.Internal := by
    cases a.phase with
    | waiting resume =>
        cases resume with
        | perform rest => cases rest <;> exact Iff.rfl
        | _ => exact Iff.rfl
    | _ => exact Iff.rfl
  exact ⟨fun h => ⟨Frame.internal_iff.mp h.frame, hphase.mp h.phase⟩,
    fun h => ⟨Frame.internal_iff.mpr h.frame, hphase.mpr h.phase⟩⟩

/-- Whatever an instruction asks for, its frame is left with values of internal form. -/
theorem Surroundings.execute_internal
    (s : Surroundings) (heap : Heap) {f : Frame} (h : f.Internal) (i : Instruction) :
  Yields True (fun r => ∀ a ∈ r.1.after, a.Internal) (s.execute heap f i)
  := by
  apply (execute_holds Value.internal_toStack s heap (Frame.internal_iff.mp h) _).mono id
  · intro r hr a ha
    exact Activation.internal_iff.mpr (hr a ha)
  · intro n ls v _ hls hv
    exact forall_mem_set hls hv

/-- The steps of a frame keep the form of its values. -/
theorem Activation.internal_invariant (session : Session) (limit : Nat) :
  Invariant session limit Internal
  := by
  constructor
  · intro m body args typeArgs resume _
    exact ⟨Frame.internal_enter m body args typeArgs resume, trivial⟩
  · intro a b ha hstep
    apply internal_iff.mpr
    apply hstep.holds Value.internal_toStack (internal_iff.mp ha)
    intro _ i _ n ls v _ hls hv
    exact forall_mem_set hls hv

/-! ## Slots -/

/-- The slots of objects have values of internal form, but for the objects that the host has made
itself. -/
def Heap.Internal (foreign : List Nat) (h : Heap) : Prop :=
  ∀ (address : Nat) (slots : List Value), h.objects[address]? = some slots → address ∉ foreign →
    ∀ v ∈ slots, v.Internal

namespace Heap

variable {foreign : List Nat} {h h' : Heap}

theorem Internal.of_objects (hinternal : h.Internal foreign) (hobjects : h'.objects = h.objects) :
  h'.Internal foreign
  := by
  rw [Internal, hobjects]
  exact hinternal

/-- Another object, made with values of internal form unless the host has made it. -/
theorem Internal.allocObject
    (hinternal : h.Internal foreign) (type : TypeId) {slots : List Value}
    (hslots : h.objects.size ∉ foreign → ∀ v ∈ slots, v.Internal) :
  (h.allocObject type slots).2.Internal foreign
  := by
  intro address slots' hslots' hforeign
  rw [Heap.allocObject, Array.getElem?_push] at hslots'
  split at hslots'
  · next hlast =>
    cases hslots'
    rw [hlast] at hforeign
    exact hslots hforeign
  · exact hinternal address slots' hslots' hforeign

theorem Internal.more (hinternal : h.Internal foreign) (address : Nat) :
  h.Internal (address :: foreign)
  := fun other slots hslots hother =>
    hinternal other slots hslots fun hmem => hother (List.mem_cons_of_mem _ hmem)

/-- A store of such a value into a slot keeps the heap as it is described. -/
theorem Internal.setSlot
    (hinternal : h.Internal foreign) {r : ObjectRef} {i : Nat} {v : Value} (hv : v.Internal)
    (hset : h.setSlot r i v = .ok h') :
  h'.Internal foreign
  := by
  rw [setSlot_ok hset]
  intro address slots hslots hforeign
  rw [Array.getElem?_setIfInBounds] at hslots
  split at hslots
  · next hsame =>
    split at hslots
    · next hlt =>
      cases hslots
      apply forall_mem_set _ hv
      intro u hu
      rw [Heap.slots, Array.getElem?_eq_getElem hlt, Option.getD_some] at hu
      exact hinternal r.address _ (Array.getElem?_eq_getElem hlt) (hsame ▸ hforeign) u hu
    · cases hslots
  · exact hinternal address slots hslots hforeign

end Heap

/-- The slots of types have values of internal form. -/
def Machine.Internal (machine : Machine) : Prop :=
  ∀ entry ∈ machine.statics, ∀ v ∈ entry.2, v.Internal

namespace Machine

variable {machine machine' : Machine}

theorem Internal.of_statics (h : machine.Internal) (hstatics : machine'.statics = machine.statics) :
  machine'.Internal
  := by
  rw [Internal, hstatics]
  exact h

/-- The slots of a type start with its defaults in internal form. -/
theorem Internal.prepare (h : machine.Internal) (session : Session) (id : TypeId) :
  (machine.prepare session id).2.Internal
  := by
  rw [Machine.prepare]
  dsimp only
  split
  · exact h
  · split
    · exact h
    · next t _ =>
      have hcreated : Internal { machine with
          initialized := id :: machine.initialized
          statics := (id, t.staticDefaults.map Value.toStack)
            :: machine.statics.filter (·.1 != id) } := by
        refine List.forall_mem_cons.mpr ⟨Value.internal_toStacks _, fun entry hentry => ?_⟩
        exact h entry (List.mem_of_mem_filter hentry)
      split
      · exact hcreated
      · split <;> exact hcreated

/-- So does one into a static field. -/
theorem Internal.setStatic
    (h : machine.Internal) {id : TypeId} {slot : Nat} {v : Value} (hv : v.Internal)
    (hset : machine.setStatic id slot v = .ok machine') :
  machine'.Internal
  := by
  rw [Machine.setStatic] at hset
  split at hset
  · split at hset
    · cases hset
      intro entry hentry
      obtain ⟨⟨owner, slots⟩, hmem, rfl⟩ := List.mem_map.mp hentry
      dsimp only
      split
      · exact forall_mem_set (h _ hmem) hv
      · exact h _ hmem
    · cases hset
  · cases hset

theorem tick_statics (machine : Machine) : machine.tick.2.statics = machine.statics := by
  rw [tick]
  dsimp only
  split
  · split <;> rfl
  · rfl

end Machine

/-- A machine and its heap keep values of internal form in their slots. -/
structure HostState.Internal (foreign : List Nat) (host : HostState) : Prop where
  machine : host.machine.Internal
  heap : host.heap.Internal foreign

/-! ## Programs -/

namespace Surroundings

variable {foreign : List Nat} {heap : Heap} {f : Frame}

/-- A write of a field stores a value of the stack. -/
theorem storeField_internal_heap
    (s : Surroundings) (hheap : heap.Internal foreign) (h : f.Internal) (i : Instruction) :
  Yields True (fun r => r.2.Internal foreign) (s.storeField heap f i)
  := by
  apply Yields.bind (Yields.any i.fieldRef)
  intro handle _
  apply Yields.bind (Yields.any (s.session.fieldAt handle))
  intro field _
  apply Yields.bind (Frame.internal_iff.mp h).pop
  rintro ⟨v, g⟩ ⟨hv, hg⟩
  apply Yields.bind (Yields.any g.pop)
  rintro ⟨receiver, g⟩ _
  dsimp only
  split
  · trivial
  · split
    · next hset => exact hheap.setSlot hv hset
    · trivial
  · trivial

/-- An instruction writes a value from its stack into an object, or leaves the objects alone. -/
theorem execute_internal_heap
    (s : Surroundings) (hheap : heap.Internal foreign) (h : f.Internal) (i : Instruction) :
  Yields True (fun r => r.2.Internal foreign) (s.execute heap f i)
  := by
  by_cases hop : i.opcode = .stfld
  · rw [execute, hop]
    exact (s.storeField_internal_heap hheap h i).map fun _ h => h
  · exact (s.execute_objects heap f hop).mono id fun _ hobjects => hheap.of_objects hobjects

end Surroundings

namespace Execution

variable {session : Session} {foreign : List Nat} {e : Execution} {f : Frame}
  {callers : List Frame}

/-- What waits for the initializer of a type leaves values of internal form in slots. -/
theorem perform_internal
    (h : HostState.Internal foreign ⟨e.machine, e.heap⟩) {rest : Deferred} (hrest : rest.Internal) :
  (e.perform f callers rest).host.Internal foreign
  := by
  cases rest with
  | load owner slot =>
      rw [perform]
      split
      · rw [complete_host]
        exact h
      · exact h
  | store owner slot v =>
      rw [perform]
      split
      · next hset => exact ⟨h.machine.setStatic hrest hset, h.heap⟩
      · exact h
  | call m args typeArgs =>
      rw [perform, enter_host]
      exact h
  | construct t m args typeArgs =>
      rw [perform, enter_host]
      exact ⟨h.machine, h.heap.allocObject t.id fun _ => Value.internal_toStacks _⟩

/-- Setting up a type stores initial values, which are in stack form. -/
theorem prepare_internal
    (h : HostState.Internal foreign ⟨e.machine, e.heap⟩) {owner : TypeId} {rest : Deferred}
    (hrest : rest.Internal) :
  (e.prepare session f callers owner rest).host.Internal foreign
  := by
  have hprepared := h.machine.prepare session owner
  rw [prepare]
  split
  · next hmachine =>
    rw [hmachine] at hprepared
    exact ⟨hprepared, h.heap⟩
  · next machine hmachine =>
    rw [hmachine] at hprepared
    exact perform_internal (e := { e with machine := machine }) ⟨hprepared, h.heap⟩ hrest
  · next hmachine =>
    rw [hmachine] at hprepared
    rw [enter_host]
    exact ⟨hprepared, h.heap⟩

/-- A return hands on a value in stack form. -/
theorem finish_internal
    (h : HostState.Internal foreign ⟨e.machine, e.heap⟩)
    (hcallers : ∀ a ∈ Activation.ofFrames (.waiting f.resume) callers, a.Internal) (v : Value) :
  (e.finish f callers v).host.Internal foreign
  := by
  cases callers with
  | nil => exact h
  | cons caller callers =>
      rw [finish]
      split
      · rw [complete_host]
        exact h
      · exact h
      · rw [complete_host]
        exact h
      · next rest hresume =>
        have hcaller := hcallers _ List.mem_cons_self
        rw [hresume] at hcaller
        exact perform_internal h hcaller.phase

/-- A step leaves values of internal form in slots. -/
theorem step_internal
    (session : Session) (h : HostState.Internal foreign ⟨e.machine, e.heap⟩)
    (hframes : ∀ a ∈ e.activations, a.Internal) :
  (e.step session).host.Internal foreign
  := by
  obtain ⟨machine, heap, frames⟩ := e
  have htick := h.machine.of_statics machine.tick_statics
  rw [step]
  cases frames with
  | nil => exact h
  | cons f callers =>
      obtain ⟨hf, hcallers⟩ := List.forall_mem_cons.mp hframes
      dsimp only
      split
      · exact h
      · next i _ =>
        split
        · next hmachine =>
          rw [hmachine] at htick
          exact ⟨htick, h.heap⟩
        · next machine' hmachine =>
          rw [hmachine] at htick
          split
          · exact ⟨htick, h.heap⟩
          · next request heap' hexecute =>
            have hafter := (Surroundings.execute_internal _ heap hf.frame i).of_ok hexecute
            have hheap :=
              (Surroundings.execute_internal_heap _ h.heap hf.frame i).of_ok hexecute
            have hhost : HostState.Internal foreign ⟨machine', heap'⟩ := ⟨htick, hheap⟩
            cases request with
            | proceed g => exact hhost
            | finish v => exact finish_internal hhost hcallers v
            | raise g exception =>
                rw [serve, raise_host]
                exact hhost
            | invoke g m args typeArgs resume =>
                rw [serve, enter_host]
                exact hhost
            | prepare g owner rest => exact prepare_internal hhost (hafter _ rfl).phase

/-- A program with values of internal form in all its frames and slots. -/
structure Internal (limits : Limits) (foreign : List Nat) (e : Execution) : Prop where
  has : e.Has limits Activation.Internal .ready
  host : HostState.Internal foreign ⟨e.machine, e.heap⟩

variable {limits : Limits} {e' : Execution}

/-- A step keeps every value in stack form. -/
theorem Internal.step (h : e.Internal limits foreign) (hstep : e.step session = .running e') :
  e'.Internal limits foreign
  := by
  have hkeeps : (e.step session).Keeps limits Activation.Internal :=
    step_keeps (Activation.internal_invariant _ _) h.has
  have hhost := step_internal session h.host h.has.frames
  rw [hstep] at hkeeps hhost
  exact ⟨hkeeps, hhost⟩

/-- So does every run. -/
theorem Reaches.internal (hreaches : Reaches session e e') (h : e.Internal limits foreign) :
  e'.Internal limits foreign
  := by
  induction hreaches with
  | refl => exact h
  | step _ hstep ih => exact ih.step hstep

theorem Internal.run (h : e.Internal limits foreign) (fuel : Nat) :
  (e.run session fuel).host.Internal foreign
  := by
  induction fuel generalizing e with
  | zero => exact h.host
  | succ fuel ih =>
      rw [Execution.run]
      split
      · next e' hstep => exact ih (h.step hstep)
      · exact step_internal session h.host h.has.frames

end Execution

namespace Launch

variable {session : Session} {foreign : List Nat} {l : Launch}

theorem entered_internal
    (h : l.host.Internal foreign) {e : Execution} (hentered : l.entered = .running e) :
  e.Internal l.host.machine.limits foreign
  := by
  have hnone : l.start.Has l.host.machine.limits Activation.Internal (.waiting .dropResult) := by
    refine ⟨rfl, ?_⟩
    rintro a ⟨⟩
  have hkeeps : l.entered.Keeps l.host.machine.limits Activation.Internal :=
    Execution.enter_keeps (Activation.internal_invariant default _) hnone
  have hhost : l.entered.host = ⟨l.start.machine, l.host.heap⟩ := l.start.enter_host _ _ _ _
  rw [hentered] at hkeeps hhost
  have hinternal : HostState.Internal foreign ⟨l.start.machine, l.host.heap⟩ :=
    ⟨h.machine.of_statics rfl, h.heap⟩
  rw [← hhost] at hinternal
  exact ⟨hkeeps, hinternal⟩

theorem status_internal (h : l.host.Internal foreign) :
  (l.status session).host.Internal foreign
  := by
  have hhost : l.entered.host = ⟨l.start.machine, l.host.heap⟩ := l.start.enter_host _ _ _ _
  rw [status]
  split
  · next e hentered => exact (entered_internal h hentered).run _
  · rw [hhost]
    exact ⟨h.machine.of_statics rfl, h.heap⟩

end Launch

/-! ## Worlds -/

/-- Calls of the host store values of internal form. -/
theorem HostState.internal_stable (session : Session) (foreign : List Nat) :
  Stable session (Internal foreign)
  := by
  constructor
  case prepare =>
    intro host id h
    exact ⟨h.machine.prepare session id, h.heap⟩
  case run =>
    intro l h
    exact l.status_internal h
  case setStatic =>
    intro host machine id slot v h hset
    exact ⟨h.machine.setStatic v.internal_toStack hset, h.heap⟩
  case allocObject =>
    intro host t h
    exact ⟨h.machine, h.heap.allocObject t.id fun _ => Value.internal_toStacks _⟩
  case setSlot =>
    intro host heap r slot v h hset
    exact ⟨h.machine, h.heap.setSlot v.internal_toStack hset⟩

namespace World

/-- A running program at some moment of a call of the machine `k`. -/
def Moment (w : World) (k : Nat) (c : HostCall) (e : Execution) : Prop :=
  ∃ machine l e₀, w.machines[k]? = some machine
    ∧ l ∈ c.launches w.project.session ⟨machine, w.heap⟩
    ∧ l.entered = .running e₀ ∧ Execution.Reaches w.project.session e₀ e

/-- The slots of types and objects have values of internal form between two acts of the host, and
so have all slots, stacks and locals at every moment of every call that may come next. -/
structure Internal (w : World) : Prop where
  statics : ∀ machine ∈ w.machines, machine.Internal
  objects : w.heap.Internal w.foreign
  moments : ∀ {k c e}, w.Moment k c e →
    (∀ f ∈ e.frames, f.Internal) ∧ e.machine.Internal ∧ e.heap.Internal w.foreign

variable {w : World}

/-- What is so between two acts is so at the moments of a call. -/
theorem internal_of_slots (hstatics : ∀ machine ∈ w.machines, machine.Internal)
    (hobjects : w.heap.Internal w.foreign) :
  w.Internal
  := by
  refine ⟨hstatics, hobjects, ?_⟩
  rintro k c e ⟨machine, l, e₀, hk, hl, hentered, hreaches⟩
  have hhost : HostState.Internal w.foreign ⟨machine, w.heap⟩ :=
    ⟨hstatics machine (List.mem_of_getElem? hk), hobjects⟩
  have hl := (HostState.internal_stable w.project.session w.foreign).launches c hhost l hl
  have h := hreaches.internal (l.entered_internal hl hentered)
  have hframes : ∀ a ∈ Activation.ofFrames .ready e.frames, a.frame.Internal :=
    fun a ha => (h.has.frames a ha).frame
  exact ⟨Activation.forall_frame_iff.mp hframes, h.host.machine, h.host.heap⟩

/-- So does everything that a host does. -/
theorem Internal.act (h : w.Internal) (a : Act ρ) : (w.act a).Internal := by
  apply internal_of_slots
  · cases a with
    | machine limits runInitializers =>
        intro machine hmachine
        obtain hmem | hnew := List.mem_append.mp hmachine
        · exact h.statics machine hmem
        · rw [List.mem_singleton.mp hnew]
          rintro entry ⟨⟩
    | call k c =>
        cases hk : w.machines[k]? with
        | none =>
            rw [act_call_none hk]
            exact h.statics
        | some machine =>
            have hleft := (HostState.internal_stable w.project.session w.foreign).perform c
              ⟨machine, w.heap⟩ ⟨h.statics machine (List.mem_of_getElem? hk), h.objects⟩
            rw [act_call hk]
            exact forall_mem_set h.statics hleft.machine
    | session e => exact h.statics
    | object type slots => exact h.statics
    | array element items => exact h.statics
  · cases a with
    | object type slots =>
        have hobjects := h.objects.more w.heap.objects.size
        exact hobjects.allocObject type fun hforeign => absurd List.mem_cons_self hforeign
    | call k c =>
        cases hk : w.machines[k]? with
        | none =>
            rw [act_call_none hk]
            exact h.objects
        | some machine =>
            have hleft := (HostState.internal_stable w.project.session w.foreign).perform c
              ⟨machine, w.heap⟩ ⟨h.statics machine (List.mem_of_getElem? hk), h.objects⟩
            rw [act_call hk]
            exact hleft.heap
    | session e => exact h.objects
    | machine limits runInitializers => exact h.objects
    | array element items => exact h.objects.of_objects rfl

/-- Whatever a host does, with whatever arguments, there is no boolean of the host on the stack or
in a local of a frame, in a slot of a type, or in a slot of an object that a machine has made:
not between its acts, and at no moment of a call. -/
theorem after_internal (verify : Bool) (history : List (Act ρ)) :
  ((empty verify).after history).Internal
  := by
  induction history using List.reverseRecOn with
  | nil =>
      apply internal_of_slots
      · rintro machine ⟨⟩
      · rintro address slots hslots
        cases hslots
  | append_singleton before a ih =>
      rw [after_append]
      exact ih.act a

/-- A class with a static boolean, and a static method that stores its argument there; the host
calls the method with a boolean of its own. -/
def storing : List (Act Unit) :=
  [ .session (.build (.openUnit "A")),
    .session (.build (.change 0 (.declareType "T" .classType {} none))),
    .session (.build (.change 0
      (.defineField ⟨1⟩ "X" (.primitive .bool) { modifier := .isStatic }))),
    .session (.build (.change 0 (.defineMethod ⟨1⟩ "Keep"
      { modifier := .isStatic
        params := some [⟨"b", .primitive .bool, none, false⟩]
        returnType := some .void }
      (.generate fun _ e => .ok (((e.loadArg 0).emitField .stsfld ⟨⟨1⟩, 0⟩).emit .ret, []))))),
    .session (.build (.change 0 .finalize)),
    .machine {} true,
    .call 0 (.callStatic ⟨1⟩ "Keep" [.bool true])]

/-- The boolean is kept as an integer. -/
theorem storing_internal :
  ((empty true).after storing).Internal
  ∧ ((empty true).after storing).machines.map (·.statics) = [[(⟨1⟩, [.i32 1])]]
  := by
  refine ⟨after_internal true storing, ?_⟩
  rfl

end World

end ManagedCode
