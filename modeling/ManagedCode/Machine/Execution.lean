import ManagedCode.Machine.Instruction

/-!
# Executions

The state of a machine while a program runs, and its step: one instruction of the
innermost frame, with the calls, returns and unwinding that it asks for.  Every
step counts one instruction against the budget, so that a budget bounds the number
of steps.

The static side of a type is set up on its first use: its slots get their
defaults, and its initializer, if it has one, runs before the use goes on.
-/

namespace ManagedCode

/-- What a program may use. -/
structure Limits where
  maxCallDepth : Nat := 256
  stepBudget : Option Nat := none
  maxStackDepth : Nat := 1024
deriving Inhabited

/-- A machine between two calls of the host. -/
structure Machine where
  limits : Limits := {}
  runInitializers : Bool := true
  statics : List (TypeId × List Value) := []
  initialized : List TypeId := []
  steps : Nat := 0
deriving Inhabited

/-- A running program, with the innermost frame first. -/
structure Execution where
  machine : Machine
  heap : Heap
  frames : List Frame
deriving Inhabited

/-- What has become of a running program. -/
inductive Status where
  | running (e : Execution)
  | finished (machine : Machine) (heap : Heap) (result : Except Fault Value)

namespace Machine

/-- Notes that the static side of a type is set up, and gives its slots their
defaults.  The answer is the initializer that has to run, if there is one. -/
def prepare (machine : Machine) (session : Session) (id : TypeId) :
    Except Fault (Option RealizedMethod) × Machine :=
  if machine.initialized.contains id then (.ok none, machine)
  else
    let machine := { machine with initialized := id :: machine.initialized }
    match session.realized? id with
    | none => (.error (.unknownType id), machine)
    | some t =>
      let slots := t.staticDefaults.map Value.toStack
      let machine := { machine with statics := (id, slots) :: machine.statics.filter (·.1 != id) }
      match t.typeInitializer with
      | none => (.ok none, machine)
      | some m =>
        if machine.runInitializers then (some <$> session.methodAt m, machine)
        else (.ok none, machine)

/-- The fault of a static field for which its type has no slot. -/
def missingSlot (id : TypeId) (slot : Nat) : Fault :=
  .runtimeError ("static slot " ++ toString slot ++ " missing on " ++ id.display)

/-- The value of a static field. -/
def static (machine : Machine) (id : TypeId) (slot : Nat) : Except Fault Value :=
  match (machine.statics.lookup id).bind (·[slot]?) with
  | some v => .ok v
  | none => .error (missingSlot id slot)

/-- A machine in which a static field has a new value. -/
def setStatic (machine : Machine) (id : TypeId) (slot : Nat) (v : Value) : Except Fault Machine :=
  match machine.statics.lookup id with
  | some slots =>
    if slot < slots.length then
      .ok { machine with
        statics := machine.statics.map fun (owner, slots) =>
          (owner, if owner == id then slots.set slot v else slots) }
    else .error (missingSlot id slot)
  | none => .error (missingSlot id slot)

/-- Counts an instruction; one beyond the budget is counted as well. -/
def tick (machine : Machine) : Except Fault Unit × Machine :=
  let machine := { machine with steps := machine.steps + 1 }
  match machine.limits.stepBudget with
  | some budget =>
    if budget < machine.steps then (.error (.stepBudgetExceeded budget), machine)
    else (.ok (), machine)
  | none => (.ok (), machine)

end Machine

namespace RealizedMethod

/-- The body that a call of a method with the given type arguments runs. -/
def callableBody (m : RealizedMethod) (typeArgs : List TypeRef) : Except Fault MethodBody :=
  match m.body with
  | none => .error (.missingBody m.name)
  | some body =>
    if m.isAbstract then .error (.missingBody m.name)
    else if typeArgs.length ≠ m.genericParams.length then
      .error (.typeError ("'" ++ m.name ++ "' expects " ++ toString m.genericParams.length
        ++ " type argument(s), got " ++ toString typeArgs.length))
    else .ok body

end RealizedMethod

namespace Execution

/-- The program has come to an end with a fault. -/
def fail (e : Execution) (error : Fault) : Status :=
  .finished e.machine e.heap (.error error)

/-- Enters a method, unless the call depth is used up. -/
def enter (e : Execution) (m : RealizedMethod) (args : List Value) (typeArgs : List TypeRef)
    (resume : Resume) : Status :=
  match m.callableBody typeArgs with
  | .error error => e.fail error
  | .ok body =>
    if e.frames.length < e.machine.limits.maxCallDepth then
      .running { e with frames := Frame.enter m body args typeArgs resume :: e.frames }
    else e.fail .stackOverflow

/-- Puts another innermost frame in place. -/
def withFrame (e : Execution) (f : Frame) (callers : List Frame) : Execution :=
  { e with frames := f :: callers }

/-- Completes the instruction of a frame with a value. -/
def complete (e : Execution) (f : Frame) (callers : List Frame) (v : Value) : Status :=
  match f.push e.machine.limits.maxStackDepth v with
  | .ok f => .running (e.withFrame f.advance callers)
  | .error error => e.fail error

/-- Goes on with an instruction whose type is initialized. -/
def perform (e : Execution) (f : Frame) (callers : List Frame) : Deferred → Status
  | .load owner slot =>
    match e.machine.static owner slot with
    | .ok v => e.complete f callers v
    | .error error => e.fail error
  | .store owner slot v =>
    match e.machine.setStatic owner slot v with
    | .ok machine => .running { e with machine := machine, frames := f.advance :: callers }
    | .error error => e.fail error
  | .call m args typeArgs =>
    (e.withFrame f callers).enter m args typeArgs (Surroundings.resumeFor m)
  | .construct t m args typeArgs =>
    let (r, heap) := e.heap.allocObject t.id (t.instanceDefaults.map Value.toStack)
    ({ e with heap := heap }.withFrame f callers).enter m (.object r :: args) typeArgs
      (.pushObject (.object r))

/-- Sets up the static side of a type, then goes on with an instruction. -/
def prepare (session : Session) (e : Execution) (f : Frame) (callers : List Frame)
    (owner : TypeId) (rest : Deferred) : Status :=
  match e.machine.prepare session owner with
  | (.error error, machine) => { e with machine := machine }.fail error
  | (.ok none, machine) => { e with machine := machine }.perform f callers rest
  | (.ok (some m), machine) =>
    ({ e with machine := machine }.withFrame f callers).enter m [] [] (.perform rest)

/-- Returns a value from the innermost frame. -/
def finish (e : Execution) (f : Frame) (callers : List Frame) (v : Value) : Status :=
  match callers with
  | [] => .finished e.machine e.heap (.ok v)
  | caller :: callers =>
    match f.resume with
    | .pushResult => e.complete caller callers v
    | .dropResult => .running (e.withFrame caller.advance callers)
    | .pushObject object => e.complete caller callers object
    | .perform rest => e.perform caller callers rest

/-- Raises an exception in the innermost frame. -/
def raise (session : Session) (e : Execution) (f : Frame) (callers : List Frame)
    (exception : Value) : Status :=
  match Frame.unwind session e.machine.limits.maxStackDepth exception (f :: callers) with
  | .error error => e.fail error
  | .ok [] => e.fail (.exception exception)
  | .ok frames => .running { e with frames := frames }

/-- Does what an instruction asks for. -/
def serve (session : Session) (e : Execution) (callers : List Frame) : Request → Status
  | .proceed f => .running (e.withFrame f callers)
  | .finish v =>
    match e.frames with
    | f :: _ => e.finish f callers v
    | [] => .finished e.machine e.heap (.ok v)
  | .raise f exception => e.raise session f callers exception
  | .invoke f m args typeArgs resume => (e.withFrame f callers).enter m args typeArgs resume
  | .prepare f owner rest => e.prepare session f callers owner rest

/-- Executes one instruction. -/
def step (session : Session) (e : Execution) : Status :=
  match e.frames with
  | [] => .finished e.machine e.heap (.ok .null)
  | f :: callers =>
    match f.body.instructions[f.ip]? with
    | none => e.fail (.runtimeError ("control fell off the end of '" ++ f.method.name ++ "'"))
    | some i =>
      match e.machine.tick with
      | (.error error, machine) => { e with machine := machine }.fail error
      | (.ok (), machine) =>
        let e := { e with machine := machine }
        match Surroundings.execute ⟨session, machine.limits.maxStackDepth⟩ e.heap f i with
        | .error error => e.fail error
        | .ok (request, heap) => { e with heap := heap }.serve session callers request

/-- Executes instructions until the program has finished or the fuel is used up. -/
def run (session : Session) : Nat → Execution → Status
  | 0, e => .running e
  | fuel + 1, e =>
    match e.step session with
    | .running e => run session fuel e
    | finished => finished

end Execution

namespace Limits

/-- How many steps a run may take.  A budget ends every run within one step more than
it allows; without one, a run may be as long as an address is wide. -/
def fuel (l : Limits) : Nat :=
  match l.stepBudget with
  | some budget => budget + 1
  | none => 0x4000000000000000

end Limits

end ManagedCode
