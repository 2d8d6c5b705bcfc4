import ManagedCode.Proofs.Machine.StraightCode
import ManagedCode.Proofs.Machine.StaticHistory

/-!
# Static slots

Once the static side of a type has been set up, it stays so: no step and no call of the host takes
the mark from a type (`HostState.Course.marks`).  Then the static fields of the type are read and
written in their slots without anything else, and a slot that has been written holds the value,
while all other slots keep theirs (`Machine.Assigns`).
-/

namespace ManagedCode

/-! ## Types that have been set up -/

/-- Types that have been set up on one machine are so on another one. -/
def Machine.Marks (machine machine' : Machine) : Prop :=
  machine.initialized ⊆ machine'.initialized

namespace Machine

variable {machine machine' machine'' : Machine} {id : TypeId}

/-- A machine keeps the marks that it has. -/
theorem Marks.refl (machine : Machine) : machine.Marks machine :=
  List.Subset.refl _

/-- Marks are kept from one machine to the next. -/
theorem Marks.trans (h : machine.Marks machine') (h' : machine'.Marks machine'') :
  machine.Marks machine''
  :=
  List.Subset.trans h h'

/-- A type that is set up is marked, and the others stay marked. -/
theorem prepare_marks (machine : Machine) (session : Session) (id : TypeId) :
  machine.Marks (machine.prepare session id).2 ∧ id ∈ (machine.prepare session id).2.initialized
  := by
  rw [prepare]
  split
  · next hmarked => exact ⟨.refl machine, List.contains_iff_mem.mp hmarked⟩
  · dsimp only
    split
    · exact ⟨List.subset_cons_self id _, List.mem_cons_self⟩
    · split
      · exact ⟨List.subset_cons_self id _, List.mem_cons_self⟩
      · split <;> exact ⟨List.subset_cons_self id _, List.mem_cons_self⟩

/-- A type that is marked is not set up again. -/
theorem prepare_of_marked (session : Session) (h : id ∈ machine.initialized) :
  machine.prepare session id = (.ok none, machine)
  := by
  rw [prepare]
  rw [if_pos (List.contains_iff_mem.mpr h)]

/-- A write of a static slot leaves the marks. -/
theorem setStatic_marks
    {slot : Nat} {v : Value} (h : machine.setStatic id slot v = .ok machine') :
  machine.Marks machine'
  := by
  rw [setStatic] at h
  split at h
  · split at h
    · cases h
      exact .refl _
    · cases h
  · cases h

/-- So does counting an instruction. -/
theorem tick_marks (machine : Machine) : machine.Marks machine.tick.2 := by
  rw [tick]
  dsimp only
  split
  · split <;> exact .refl _
  · exact .refl _

end Machine

namespace Execution

variable {session : Session}

/-- A frame goes on without the machine. -/
theorem complete_machine (e : Execution) (f : Frame) (callers : List Frame) (v : Value) :
  (e.complete f callers v).host.machine = e.machine
  := congrArg HostState.machine (e.complete_host f callers v)

/-- So is a frame entered. -/
theorem enter_machine
    (e : Execution) (m : RealizedMethod) (args : List Value) (typeArgs : List TypeRef)
    (resume : Resume) :
  (e.enter m args typeArgs resume).host.machine = e.machine
  := congrArg HostState.machine (e.enter_host m args typeArgs resume)

/-- An instruction that goes on keeps the marks. -/
theorem perform_marks (e : Execution) (f : Frame) (callers : List Frame) (rest : Deferred) :
  e.machine.Marks (e.perform f callers rest).host.machine
  := by
  cases rest with
  | load owner slot =>
      rw [perform]
      split
      · rw [complete_machine]
        exact .refl _
      · exact .refl _
  | store owner slot v =>
      rw [perform]
      split
      · next hset => exact Machine.setStatic_marks hset
      · exact .refl _
  | call m args typeArgs =>
      rw [perform, enter_machine]
      exact .refl _
  | construct t m args typeArgs =>
      rw [perform, enter_machine]
      exact .refl _

/-- So does one that has a type set up. -/
theorem prepare_marks (session : Session) (e : Execution) (f : Frame) (callers : List Frame)
    (owner : TypeId) (rest : Deferred) :
  e.machine.Marks (e.prepare session f callers owner rest).host.machine
  := by
  have hprepared := (e.machine.prepare_marks session owner).1
  rw [prepare]
  split
  · next h =>
    rw [h] at hprepared
    exact hprepared
  · next machine h =>
    rw [h] at hprepared
    exact hprepared.trans (perform_marks { e with machine := machine } f callers rest)
  · next h =>
    rw [h] at hprepared
    rw [enter_machine]
    exact hprepared

/-- So does a return. -/
theorem finish_marks (e : Execution) (f : Frame) (callers : List Frame) (v : Value) :
  e.machine.Marks (e.finish f callers v).host.machine
  := by
  cases callers with
  | nil => exact .refl _
  | cons caller callers =>
      rw [finish]
      split
      · rw [complete_machine]
        exact .refl _
      · exact .refl _
      · rw [complete_machine]
        exact .refl _
      · apply perform_marks

/-- Whatever is asked for keeps the marks. -/
theorem serve_marks (session : Session) (e : Execution) (callers : List Frame)
    (request : Request) :
  e.machine.Marks (e.serve session callers request).host.machine
  := by
  cases request with
  | proceed f => exact .refl _
  | finish v =>
      rw [serve]
      split
      · apply finish_marks
      · exact .refl _
  | raise f exception =>
      rw [serve, raise]
      split <;> exact .refl _
  | invoke f m args typeArgs resume =>
      rw [serve, enter_machine]
      exact .refl _
  | prepare f owner rest => apply prepare_marks

/-- A step keeps the marks. -/
theorem step_marks (session : Session) (e : Execution) :
  e.machine.Marks (e.step session).host.machine
  := by
  have hticked := e.machine.tick_marks
  rw [step]
  split
  · exact .refl _
  · next f callers _ =>
    split
    · exact .refl _
    · split
      · next h =>
        rw [h] at hticked
        exact hticked
      · next machine h =>
        rw [h] at hticked
        dsimp only
        split
        · exact hticked
        · next request heap _ =>
          have hserved := serve_marks session { e with machine := machine, heap := heap } callers
            request
          exact hticked.trans hserved

/-- So does a run. -/
theorem run_marks (session : Session) (fuel : Nat) (e : Execution) :
  e.machine.Marks (e.run session fuel).host.machine
  := by
  induction fuel generalizing e with
  | zero => exact .refl _
  | succ fuel ih =>
      have hstep := e.step_marks session
      rw [run]
      split
      · next e' hrunning =>
        rw [hrunning] at hstep
        exact hstep.trans (ih e')
      · exact hstep

end Execution

/-- So does a run that the host starts. -/
theorem Launch.status_marks (session : Session) (l : Launch) :
  l.host.machine.Marks (l.status session).host.machine
  := by
  have hentered : l.host.machine.Marks l.entered.host.machine := by
    rw [entered, Execution.enter_machine]
    exact .refl _
  rw [status]
  split
  · next e hrunning =>
    rw [hrunning] at hentered
    exact hentered.trans (e.run_marks session _)
  · exact hentered

namespace HostState

variable {session : Session} {host host' : HostState} {launches : List Launch}

/-- So does every change that a call of the host makes. -/
theorem Changes.marks (h : host.Changes session host') : host.machine.Marks host'.machine := by
  cases h with
  | prepare id => exact (host.machine.prepare_marks session id).1
  | setStatic hset => exact Machine.setStatic_marks hset
  | allocObject id slots => exact .refl _
  | setSlot hset => exact .refl _

/-- Whatever the host and its runs do, types that have been set up stay so. -/
theorem Course.marks (h : host.Course session launches host') :
  host.machine.Marks host'.machine
  := by
  induction h with
  | refl => exact .refl _
  | change hchange _ ih => exact hchange.marks.trans ih
  | run l _ ih => exact (l.status_marks session).trans ih

end HostState

/-- The static side of a type that the host has set up. -/
theorem Host.initialized_of_initializeType
    {session : Session} {id : TypeId} {host host' : HostState}
    (h : (initializeType session id).exec host = (.ok (), host')) :
  id ∈ host'.machine.initialized
  := by
  obtain ⟨-, hmarked⟩ := host.machine.prepare_marks session id
  rw [exec_initializeType] at h
  generalize host.machine.prepare session id = prepared at hmarked h
  obtain ⟨initializer, machine⟩ := prepared
  cases initializer with
  | error error => cases (Prod.mk.inj h).1
  | ok initializer =>
      cases initializer with
      | none =>
          obtain rfl := (Prod.mk.inj h).2
          exact hmarked
      | some m =>
          have hcourse := (Runs.execute session m [] [] ⟨machine, host.heap⟩).discard.course
          dsimp only at h
          rw [h] at hcourse
          exact hcourse.marks hmarked

/-- A type that has been set up is not set up again. -/
theorem Host.exec_initializeType_of_marked
    (session : Session) {id : TypeId} {host : HostState} (h : id ∈ host.machine.initialized) :
  (initializeType session id).exec host = (.ok (), host)
  := by
  rw [exec_initializeType, Machine.prepare_of_marked session h]
  rfl

/-! ## Slots that are written -/

/-- A static slot has got a value, and nothing else of the machine has changed but the count of
instructions. -/
structure Machine.Assigns (id : TypeId) (slot : Nat) (v : Value) (machine machine' : Machine) :
    Prop where
  value : machine'.static id slot = .ok v
  others : ∀ id' slot', (id', slot') ≠ (id, slot) →
    machine'.static id' slot' = machine.static id' slot'
  rest : { machine' with statics := machine.statics, steps := machine.steps } = machine

/-- The slots of a type after a write are the old ones with the value in its place. -/
theorem lookup_map_set
    (statics : List (TypeId × List Value)) (id x : TypeId) (slot : Nat) (v : Value) :
  List.lookup x
      (statics.map fun (owner, slots) => (owner, if owner == id then slots.set slot v else slots))
    = (statics.lookup x).map fun slots => if x == id then slots.set slot v else slots
  := by
  induction statics with
  | nil => rfl
  | cons side statics ih =>
      obtain ⟨owner, slots⟩ := side
      rw [List.map_cons, List.lookup_cons, List.lookup_cons, ih]
      cases hsame : x == owner with
      | false => rfl
      | true =>
          rw [eq_of_beq hsame]
          rfl

/-- A write assigns its slot and no other. -/
theorem Machine.assigns_of_setStatic
    {machine machine' : Machine} {id : TypeId} {slot : Nat} {v : Value}
    (h : machine.setStatic id slot v = .ok machine') :
  Assigns id slot v machine machine'
  := by
  rw [setStatic] at h
  split at h
  · next slots hslots =>
    split at h
    · next hlt =>
      cases h
      refine ⟨?_, ?_, rfl⟩
      · rw [static]
        dsimp only
        rw [lookup_map_set, hslots]
        simp [hlt]
      · intro id' slot' hne
        rw [static, static]
        dsimp only
        rw [lookup_map_set]
        cases hsame : id' == id with
        | false => simp
        | true =>
            obtain rfl := eq_of_beq hsame
            have hother : slot ≠ slot' := fun heq => hne (heq ▸ rfl)
            rw [hslots]
            simp [hother]
    · cases h
  · cases h

/-! ## Straight code that uses static slots -/

namespace Surroundings

variable {f : RealizedField} {k : Nat} {v : Value} {g : Frame} {rest : List Value}

/-- Reading a static field asks for the type of the field. -/
theorem execute_ldsfld
    (s : Surroundings) (heap : Heap) (g : Frame) (hfield : s.session.fieldAt f.handle = .ok f)
    (hslot : f.slot = .static k) :
  s.execute heap g ⟨.ldsfld, .field f.handle⟩
    = .ok (.prepare g f.handle.owner (.load f.handle.owner k), heap)
  := by
  simp only [execute, loadStatic, Instruction.fieldRef, bind, Except.bind, hfield, hslot]
  rfl

/-- So does writing one. -/
theorem execute_stsfld
    (s : Surroundings) (heap : Heap) (hfield : s.session.fieldAt f.handle = .ok f)
    (hslot : f.slot = .static k) (hstack : g.stack = v :: rest) :
  s.execute heap g ⟨.stsfld, .field f.handle⟩
    = .ok (.prepare { g with stack := rest } f.handle.owner (.store f.handle.owner k v), heap)
  := by
  have hpop : g.pop = .ok (v, { g with stack := rest }) := by
    rw [Frame.pop]
    rw [hstack]
  simp only [execute, storeStatic, Instruction.fieldRef, bind, Except.bind, hfield, hpop, hslot]
  rfl

end Surroundings

namespace Launch

variable {l : Launch} {body : MethodBody} {session : Session} {n : Nat} {host : HostState}
  {stack rest : List Value} {i : Instruction} {v : Value}

/-- An instruction that needs the static side of a type goes on at once if it has been set up. -/
theorem step_marked
    {machine : Machine} {g : Frame} {owner : TypeId} {todo : Deferred}
    (hexecutes : (l.reached body n host stack).Executes i (l.frame body n stack) [] machine)
    (hexecute : Surroundings.execute ⟨session, machine.limits.maxStackDepth⟩ host.heap
      (l.frame body n stack) i = .ok (.prepare g owner todo, host.heap))
    (hmarked : owner ∈ machine.initialized) :
  (l.reached body n host stack).step session
    = Execution.perform
        { machine := machine, heap := host.heap, frames := [l.frame body n stack] } g [] todo
  := by
  rw [hexecutes.step_request hexecute, Execution.serve, Execution.prepare]
  dsimp only
  rw [Machine.prepare_of_marked session hmarked]

variable {frames depth steps k : Nat} {f : RealizedField}
  (hallow : l.host.machine.limits.Allow frames depth steps) (hn : n < steps)
  (hfield : session.fieldAt f.handle = .ok f) (hslot : f.slot = .static k)
  (hmarked : f.handle.owner ∈ host.machine.initialized)

include hallow hn hfield hslot hmarked

/-- Straight code goes on by the load of a static field. -/
theorem Passes.loadStatic
    (h : Passes session l body n host stack)
    (hi : body.instructions[n]? = some ⟨.ldsfld, .field f.handle⟩) (hroom : stack.length < depth)
    (hvalue : host.machine.static f.handle.owner k = .ok v) :
  Passes session l body (n + 1) host (v.toStack :: stack)
  := by
  apply h.step
  have hdepth : stack.length < host.machine.limits.maxStackDepth := by
    rw [h.limits]
    exact Nat.lt_of_lt_of_le hroom hallow.depth
  have hpush : Frame.push host.machine.limits.maxStackDepth (l.frame body n stack) v
      = .ok (l.frame body n (v.toStack :: stack)) := if_pos hdepth
  have hstatic : Machine.static { host.machine with steps := n + 1 } f.handle.owner k = .ok v :=
    hvalue
  rw [step_marked (h.executes hallow hn hi) (Surroundings.execute_ldsfld _ _ _ hfield hslot)
    hmarked, Execution.perform]
  dsimp only
  rw [hstatic]
  dsimp only
  rw [Execution.complete]
  dsimp only
  rw [hpush]
  rfl

/-- Straight code goes on by a store into a static field, or the run fails. -/
theorem Passes.storeStatic
    (h : Passes session l body n host (v :: rest))
    (hi : body.instructions[n]? = some ⟨.stsfld, .field f.handle⟩) :
  (∃ machine, Machine.Assigns f.handle.owner k v host.machine machine
    ∧ Passes session l body (n + 1) { host with machine := machine } rest)
  ∨ ∃ machine heap error, (l.reached body n host (v :: rest)).step session
    = .finished machine heap (.error error)
  := by
  have hstep := step_marked (h.executes hallow hn hi)
    (Surroundings.execute_stsfld _ _ hfield hslot rfl) hmarked
  rw [Execution.perform] at hstep
  dsimp only at hstep
  cases hset : Machine.setStatic { host.machine with steps := n + 1 } f.handle.owner k v with
  | error error =>
      right
      rw [hset] at hstep
      exact ⟨_, _, error, hstep⟩
  | ok machine =>
      left
      rw [hset] at hstep
      have hassigns := Machine.assigns_of_setStatic hset
      have hcount : machine.steps = n + 1 := (Prod.mk.inj (Machine.setStatic_spent hset)).1
      have hcounted : ({ machine with steps := n + 1 } : Machine) = machine := by rw [← hcount]
      have hrest : { machine with statics := host.machine.statics, steps := host.machine.steps }
          = host.machine :=
        congrArg (fun m : Machine => { m with steps := host.machine.steps }) hassigns.rest
      refine ⟨machine, ⟨hassigns.value, hassigns.others, hrest⟩, h.step ?_⟩
      rw [hstep]
      dsimp only [reached]
      rw [hcounted]
      rfl

end Launch

end ManagedCode
