import ManagedCode.Emitter.Error

/-!
# Emitters

An emitter collects the instructions, labels, locals and protected regions of
one method.  Faults in what is emitted are recorded, and the first of them is
reported when the body is sealed; only the block operations refuse a call on the
spot, and they leave the emitter as it was.

A protected block is opened by `beginBlock`, continued by any number of catch
handlers and at most one finally handler, and closed by `endBlock`.  Each of
these closes the range before it with a jump out of the block, so that control
never falls from one range into the next.
-/

namespace ManagedCode

/-- A protected block that has not been closed.  `exit` is the label of its end,
`handler` the handler being emitted, `tryEnd` the end of the range that the catch
handlers protect, and `finallyProtects` the end of the range that the finally
handler protects. -/
structure ProtectedBlock where
  tryStart : Nat
  exit : Label
  tryEnd : Option Nat
  handler : Option (Nat × HandlerKind)
  finallyProtects : Nat
deriving Inhabited

/-- A local that a method has declared. -/
structure LocalVar where
  index : UInt16
  type : TypeRef
deriving Inhabited

/-- A body under construction: its instructions, labels, locals and open blocks, and the first error
that sealing will report. -/
structure Emitter where
  method : String
  returnsValue : Bool := false
  instructions : Array Instruction := #[]
  labels : Array (Option Nat) := #[]
  locals : Array TypeRef := #[]
  regions : List Region := []
  blocks : List ProtectedBlock := []
  errors : List EmitError := []
  finished : Bool := false
deriving Inhabited

namespace Emitter

/-- The number of instructions so far, which is the position of the next one. -/
def position (e : Emitter) : Nat :=
  e.instructions.size

/-- How many protected blocks have not ended. -/
def openBlocks (e : Emitter) : Nat :=
  e.blocks.length

/-- The first error is the one that is kept. -/
def record (e : Emitter) (error : EmitError) : Emitter :=
  { e with errors := e.errors ++ [error] }

/-- The error of an instruction that comes after sealing, once. -/
def recordSealed (e : Emitter) : Emitter :=
  if e.errors.any (fun error => error matches .isSealed _) then e
  else e.record (.isSealed e.method)

/-- What is wrong with an instruction at the end of the stream: an operand that
does not fit, then each label that the emitter has not defined. -/
def faults (e : Emitter) (op : Opcode) (operand : Operand) : List EmitError :=
  (if operand.fits op.operandKind then []
    else [.operandMismatch e.position op op.operandKind])
  ++ (operand.labels.filter (fun l => decide (e.labels.size ≤ l.id))).map
    (fun l => .unknownLabel e.method l.id)

/-- Appends an instruction; a faulty one is appended as well. -/
def emitWith (e : Emitter) (op : Opcode) (operand : Operand) : Emitter :=
  if e.finished then e.recordSealed
  else
    { e with
      errors := e.errors ++ e.faults op operand
      instructions := e.instructions.push ⟨op, operand⟩ }

/-- Appends an instruction without an operand. -/
def emit (e : Emitter) (op : Opcode) : Emitter :=
  e.emitWith op .none

/-- A new label, which marks no instruction yet. -/
def defineLabel (e : Emitter) : Label × Emitter :=
  (⟨e.labels.size⟩, { e with labels := e.labels.push none })

/-- Makes a label stand for the next instruction. -/
def markLabel (e : Emitter) (l : Label) : Emitter :=
  match e.labels[l.id]? with
  | none => e.record (.unknownLabel e.method l.id)
  | some (some _) => e.record (.labelMarkedTwice e.method l.id)
  | some none => { e with labels := e.labels.setIfInBounds l.id (some e.position) }

/-- Whether a label marks an instruction. -/
def isMarked (e : Emitter) (l : Label) : Bool :=
  match e.labels[l.id]? with
  | some (some _) => true
  | _ => false

/-- Declares a local.  Its index is kept in 16 bits. -/
def declareLocal (e : Emitter) (t : TypeRef) : LocalVar × Emitter :=
  (⟨UInt16.ofNat e.locals.size, t⟩, { e with locals := e.locals.push t })

/-- Opens a protected block and returns the label of its end. -/
def beginBlock (e : Emitter) : Label × Emitter :=
  let (l, e) := e.defineLabel
  let block : ProtectedBlock :=
    { tryStart := e.position, exit := l, tryEnd := none, handler := none, finallyProtects := 0 }
  (l, { e with blocks := block :: e.blocks })

/-- Turns the handler of the innermost block into a region that ends here. -/
def closeHandler (e : Emitter) : Emitter :=
  match e.blocks with
  | [] => e
  | block :: outer =>
    match block.handler with
    | none => e
    | some (start, kind) =>
      let region : Region :=
        { tryStart := block.tryStart
          tryEnd := match kind with
            | .finalizing => block.finallyProtects
            | .catching _ => block.tryEnd.getD start
          handlerStart := start
          handlerEnd := e.position
          kind := kind }
      { e with
        regions := e.regions ++ [region]
        blocks := { block with handler := none } :: outer }

/-- The refusal of a block that is opened, handled or ended out of turn. -/
def blockError (e : Emitter) (reason : String) : EmitError :=
  .exceptionBlock e.method reason

/-- Closes the range before a handler with a jump to the end of the block, and
opens the handler. -/
def openHandler (e : Emitter) (exit : Label) (kind : HandlerKind) : Emitter :=
  let e := (e.emitWith (.leave .long) (.label exit)).closeHandler
  match e.blocks with
  | [] => e
  | block :: outer =>
    let opened : ProtectedBlock :=
      { block with
        tryEnd := some (block.tryEnd.getD e.position)
        finallyProtects :=
          if kind = .finalizing then e.position else block.finallyProtects
        handler := some (e.position, kind) }
    { e with blocks := opened :: outer }

/-- Whether the handler being emitted is a finally handler. -/
def ProtectedBlock.inFinally (block : ProtectedBlock) : Bool :=
  match block.handler with
  | some (_, .finalizing) => true
  | _ => false

/-- The block gets a handler for the exceptions of a type. -/
def beginCatch (e : Emitter) (exception : TypeRef) : Except EmitError Emitter :=
  match e.blocks with
  | [] => .error (e.blockError "catch block outside of an exception block")
  | block :: _ =>
    if ProtectedBlock.inFinally block then
      .error (e.blockError "catch block after a finally block")
    else .ok (e.openHandler block.exit (.catching exception))

/-- The block gets a handler that runs on the way out. -/
def beginFinally (e : Emitter) : Except EmitError Emitter :=
  match e.blocks with
  | [] => .error (e.blockError "finally block outside of an exception block")
  | block :: _ =>
    if ProtectedBlock.inFinally block then
      .error (e.blockError "exception block already has a finally block")
    else .ok (e.openHandler block.exit .finalizing)

/-- Closes the innermost block; its end label stands for what comes next. -/
def endBlock (e : Emitter) : Except EmitError Emitter :=
  match e.blocks with
  | [] => .error (e.blockError "no exception block to end")
  | block :: _ =>
    match block.handler with
    | none => .error (e.blockError "exception block has no catch or finally handler")
    | some (_, kind) =>
      let e := match kind with
        | .finalizing => e.emit .endfinally
        | .catching _ => e.emitWith (.leave .long) (.label block.exit)
      let e := e.closeHandler
      .ok ({ e with blocks := e.blocks.tail }.markLabel block.exit)

end Emitter

end ManagedCode
