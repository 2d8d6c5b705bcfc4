import ManagedCode.Code.Body

/-!
# The depth of the evaluation stack

A bound on the depth of the evaluation stack, found by following control through
a body from its first instruction, where the stack is empty, and from the start
of each handler, where a catch handler finds the exception and a finally handler
nothing.  Each instruction is visited once, with the depth that reaches it
first; an instruction that takes more values than that depth is a fault.
-/

namespace ManagedCode

/-- The effect of a call to a method about which nothing is known. -/
def CallEffect.unknown : CallEffect :=
  ⟨0, 1⟩

/-- What the analysis looks at: instructions with resolved labels, the regions,
and the effects of calls and returns. -/
structure FlowGraph where
  instructions : Array Instruction
  target : Label → Option Nat
  regions : List Region
  returnsValue : Bool
  effectOf : Opcode → MethodRef → Option CallEffect

namespace FlowGraph

/-- How many values an instruction takes at a depth, and how many it leaves. -/
def effect (g : FlowGraph) (depth : Nat) (i : Instruction) : Nat × Nat :=
  match i.opcode.stackEffect with
  | .fixed pops pushes => (pops, pushes)
  | .call =>
    let call := (i.operand.method?.bind (g.effectOf i.opcode)).getD .unknown
    (call.pops, call.pushes)
  | .ret => (if g.returnsValue then 1 else 0, 0)
  | .clear => (depth, 0)

/-- Where control may go from the instruction at a position. -/
def successors (g : FlowGraph) (ip : Nat) (i : Instruction) : List Nat :=
  match i.opcode.flow with
  | .next => [ip + 1]
  | .branch | .leave => i.operand.labels.filterMap g.target
  | .condBranch | .switch => (ip + 1) :: i.operand.labels.filterMap g.target
  | .ret | .throw | .endFinally => []

/-- Where control enters, and the depth of the stack there.  The later entries
are followed first. -/
def entries (g : FlowGraph) : List (Nat × Nat) :=
  (g.regions.map fun r =>
    (r.handlerStart, match r.kind with
      | .catching _ => 1
      | .finalizing => 0)).reverse ++ [(0, 0)]

/-- A bound on the number of visits: each entry and each way out of an
instruction is followed once at most. -/
def visits (g : FlowGraph) : Nat :=
  g.entries.length + (g.instructions.toList.mapIdx g.successors).flatten.length

/-- Follows the pending visits, the last found first.  The answer is the greatest
depth before or after an instruction, or the position of an instruction that
finds too few values. -/
def explore (g : FlowGraph) : Nat → List (Nat × Nat) → Array Bool → Nat → Except Nat Nat
  | _, [], _, deepest => .ok deepest
  | 0, _ :: _, _, deepest => .ok deepest
  | fuel + 1, (ip, depth) :: pending, seen, deepest =>
    match g.instructions[ip]?, seen[ip]? with
    | some i, some false =>
      let (pops, pushes) := g.effect depth i
      if depth < pops then .error ip
      else
        let after := depth - pops + pushes
        let next := (g.successors ip i).reverse.map (·, after)
        g.explore fuel (next ++ pending) (seen.setIfInBounds ip true)
          (max deepest (max after depth))
    | _, _ => g.explore fuel pending seen deepest

/-- The greatest depth, or the position of an underflow. -/
def maxDepth (g : FlowGraph) : Except Nat Nat :=
  g.explore g.visits g.entries (Array.replicate g.instructions.size false) 0

end FlowGraph

end ManagedCode
