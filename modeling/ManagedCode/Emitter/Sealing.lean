import ManagedCode.Emitter.Basic
import ManagedCode.Emitter.Depth

/-!
# Sealing

Sealing ends the emission of a method.  It reports the first recorded fault,
then a block that is still open, then a label that does not precede an
instruction, then a last instruction from which control would go on.  A stream
that passes is relaxed: every branch to a label takes the short form where the
distance fits a signed byte and the long form elsewhere.  Last, the depth of the
stack is bounded.

An emitter can be sealed once, whether or not sealing succeeds.
-/

namespace ManagedCode.Emitter

/-- The position of the instruction that a label precedes. -/
def resolve (e : Emitter) (l : Label) : Except EmitError Nat :=
  match e.labels[l.id]? with
  | none => .error (.unknownLabel e.method l.id)
  | some none => .error (.unmarkedLabel e.method l.id)
  | some (some ip) =>
    if ip < e.position then .ok ip else .error (.invalidBranchTarget e.method l.id)

/-- The conditions that a stream has to meet, in the order in which they are
reported. -/
def check (e : Emitter) : Except EmitError Unit :=
  match e.errors with
  | error :: _ => .error error
  | [] =>
    if 0 < e.openBlocks then
      .error (.exceptionBlock e.method (toString e.openBlocks ++ " exception block(s) left open"))
    else do
      (e.instructions.toList.flatMap (·.operand.labels)).forM fun l => discard (e.resolve l)
      match e.instructions.back? with
      | some last => if last.opcode.isTerminator then .ok () else .error (.fallOffEnd e.method)
      | none => .error (.fallOffEnd e.method)

/-- The form that a branch takes by the distance from the instruction after it. -/
def widthFor (ip target : Nat) : Width :=
  let distance : Int := target - (ip + 1)
  if -128 ≤ distance ∧ distance ≤ 127 then .short else .long

/-- A branch gets the width that its distance needs. -/
def relaxInstruction (e : Emitter) (ip : Nat) (i : Instruction) : Instruction :=
  match i.operand with
  | .label l =>
    match e.resolve l with
    | .ok target => { i with opcode := i.opcode.withWidth (widthFor ip target) }
    | .error _ => i
  | _ => i

/-- Every branch gets the width that its distance needs. -/
def relax (e : Emitter) : Emitter :=
  { e with instructions := e.instructions.mapIdx e.relaxInstruction }

/-- The body as a graph, over which its stack depth is measured. -/
def graph (e : Emitter) (effectOf : Opcode → MethodRef → Option CallEffect) : FlowGraph :=
  { instructions := e.instructions
    target := fun l => (e.resolve l).toOption
    regions := e.regions
    returnsValue := e.returnsValue
    effectOf := effectOf }

/-- Ends the emission with the given effects of calls.  The body takes over what
was emitted; after a failure the emitter keeps it. -/
def sealBodyWith (e : Emitter) (effectOf : Opcode → MethodRef → Option CallEffect) :
    Except EmitError MethodBody × Emitter :=
  if e.finished then (.error (.isSealed e.method), e)
  else
    match e.check with
    | .error error => (.error error, { e with finished := true })
    | .ok () =>
      let e := { e.relax with finished := true }
      match (e.graph effectOf).maxDepth with
      | .error ip => (.error (.stackUnderflow e.method ip), e)
      | .ok maxStack =>
        let body : MethodBody :=
          { instructions := e.instructions
            labels := e.labels
            locals := e.locals
            regions := e.regions
            maxStack := maxStack }
        (.ok body, { e with instructions := #[], labels := #[], locals := #[], regions := [] })

/-- Ends the emission with nothing known about calls. -/
def sealBody (e : Emitter) : Except EmitError MethodBody × Emitter :=
  e.sealBodyWith fun _ _ => none

end ManagedCode.Emitter
