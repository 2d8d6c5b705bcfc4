import ManagedCode.Code.Listing
import ManagedCode.Describe.Document

/-!
# Descriptions of code

An opcode by its encoding and its effects, and a sealed body by its listing, its
protected regions and its stack bound.
-/

namespace ManagedCode

instance : Describe StackEffect where
  describe
    | .fixed pops pushes => .list [pops, pushes]
    | .call => "Call"
    | .ret => "Return"
    | .clear => "Clear"

instance : Describe Opcode where
  describe op :=
    .record [("byte", op.byte), ("name", op.mnemonic), ("operand", op.operandKind.name),
      ("stack", op.stackEffect), ("flow", op.flow.name), ("branch", op.isBranch),
      ("terminator", op.isTerminator), ("call", op.isCall),
      ("short", op.shortForm?.map Opcode.mnemonic), ("long", op.longForm?.map Opcode.mnemonic)]

instance : Describe CallEffect := ⟨fun s => .list [s.pops, s.pushes]⟩

instance : Describe Region where
  describe r :=
    .list [r.tryStart, r.tryEnd, r.handlerStart, r.handlerEnd, r.kind.display]

namespace MethodBody

/-- The fields that describe a body. -/
def summary (b : MethodBody) : List (String × Document) :=
  [("listing", b.listing), ("regions", b.regions), ("max_stack", b.maxStack)]

/-- The fields of `summary`, with the labels of the given names, the locals and the
bytes of the opcodes. -/
def details (b : MethodBody) (labels : List (String × Label)) : List (String × Document) :=
  let place (name : String) (l : Label) : String × Document := (name, .list [l.id, b.target? l])
  b.summary.append
    [("labels", .record (labels.map fun (name, l) => place name l)),
      ("locals", b.locals.toList), ("bytes", b.opcodes.map Opcode.byte)]

end MethodBody

instance : Describe MethodBody := ⟨fun b => .record b.summary⟩

end ManagedCode
