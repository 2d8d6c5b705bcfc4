import ManagedCode.Proofs.Emitter.Sealing
import Mathlib.Data.List.Pairwise
import Mathlib.Data.List.Perm.Basic

/-!
# The blocks of a body

An emitter is built when the operations of emission have led to it.  The regions of a
built emitter are those of protected blocks, of which each is closed or still open.
In a block, the handlers follow the range that they protect and each other without a
gap, and every range ends with a jump or with the end of a finally handler.  Of two
blocks, one comes before the other or lies within one range of it.  Regions are
recorded when their handlers end.

`Emitter.Laid` says so, `Emitter.Built.laid` carries it along the operations, and
`Emitter.Built.arranged` hands it to the sealed body.
-/

namespace ManagedCode

/-- An instruction that the emission of blocks ends a range with. -/
def Opcode.EndsRange : Opcode → Prop
  | .leave _ => True
  | .endfinally => True
  | _ => False

theorem Opcode.EndsRange.withWidth {op : Opcode} (h : op.EndsRange) (w : Width) :
  (op.withWidth w).EndsRange
  := by
  cases op <;> trivial

/-- The instruction before a position ends a range. -/
def RangeEndsAt (instructions : Array Instruction) (position : Nat) : Prop :=
  0 < position ∧ ∃ i, instructions[position - 1]? = some i ∧ i.opcode.EndsRange

/-- Two members of a list are related in the order in which they come. -/
theorem pairwise_cases
    {α : Type} {R : α → α → Prop} {l : List α} (h : l.Pairwise R) {a b : α} (ha : a ∈ l)
    (hb : b ∈ l) :
  a = b ∨ R a b ∨ R b a
  := by
  have heither : l.Pairwise fun a b => R a b ∨ R b a := h.imp Or.inl
  have hsymm : Std.Symm fun a b => R a b ∨ R b a := ⟨fun _ _ => Or.symm⟩
  by_cases hab : a = b
  · exact .inl hab
  · exact .inr (heither.forall ha hb hab)

/-! ## Blocks -/

/-- Where the range of a handler ends: a finally handler also protects the catch handlers
before it. -/
def HandlerKind.rangeEnd (tryEnd start : Nat) : HandlerKind → Nat
  | .catching _ => tryEnd
  | .finalizing => start

/-- The regions of one block up to a position: any number of catch handlers and perhaps a finally
handler at the end, each of which starts where the range before it ends. -/
inductive Handlers (tryStart tryEnd : Nat) : Nat → List Region → Prop
  | nil : Handlers tryStart tryEnd tryEnd []
  | snoc {start stop : Nat} {regions : List Region} (kind : HandlerKind)
      (h : Handlers tryStart tryEnd start regions)
      (hcatches : ∀ r ∈ regions, r.kind ≠ .finalizing) (hlt : start < stop) :
      Handlers tryStart tryEnd stop
        (regions ++ [⟨tryStart, kind.rangeEnd tryEnd start, start, stop, kind⟩])

/-- A protected block that has been closed, from the start of the range that all its handlers
protect to the end of the last handler. -/
structure Block where
  tryStart : Nat
  tryEnd : Nat
  stop : Nat
  regions : List Region

/-- The block holds an instruction and has a handler. -/
structure Block.Proper (b : Block) : Prop where
  range : b.tryStart < b.tryEnd
  handled : b.regions ≠ []
  handlers : Handlers b.tryStart b.tryEnd b.stop b.regions

namespace Block

/-- A block ends before another one starts. -/
def Before (b c : Block) : Prop :=
  b.stop ≤ c.tryStart

/-- A block lies in the range that the handlers of another one protect. -/
def InTry (b c : Block) : Prop :=
  c.tryStart ≤ b.tryStart ∧ b.stop ≤ c.tryEnd

/-- A block lies in the handler of a region. -/
def InHandler (b : Block) (r : Region) : Prop :=
  r.handlerStart ≤ b.tryStart ∧ b.stop ≤ r.handlerEnd

/-- A block lies in the range that another one protects or in one of its handlers. -/
def Within (b c : Block) : Prop :=
  b.InTry c ∨ ∃ r ∈ c.regions, b.InHandler r

end Block

/-- What holds of each region of a block. -/
structure Region.Belongs (tryStart tryEnd stop : Nat) (r : Region) : Prop where
  tryStart_eq : r.tryStart = tryStart
  tryEnd_eq : r.tryEnd = r.kind.rangeEnd tryEnd r.handlerStart
  after : tryEnd ≤ r.handlerStart
  nonempty : r.handlerStart < r.handlerEnd
  ended : r.handlerEnd ≤ stop

namespace Handlers

variable {tryStart tryEnd stop : Nat} {regions : List Region}

theorem le (h : Handlers tryStart tryEnd stop regions) : tryEnd ≤ stop := by
  induction h with
  | nil => apply Nat.le_refl
  | snoc kind h hcatches hlt ih => apply Nat.le_of_lt (Nat.lt_of_le_of_lt ih hlt)

theorem belongs (h : Handlers tryStart tryEnd stop regions) :
  ∀ r ∈ regions, r.Belongs tryStart tryEnd stop
  := by
  induction h with
  | nil => rintro r ⟨⟩
  | snoc kind h hcatches hlt ih =>
      intro r hr
      obtain hr | hr := List.mem_append.mp hr
      · have hr := ih r hr
        exact { hr with ended := Nat.le_of_lt (Nat.lt_of_le_of_lt hr.ended hlt) }
      · obtain rfl := List.mem_singleton.mp hr
        exact ⟨rfl, rfl, h.le, hlt, Nat.le_refl _⟩

/-- Only the last handler of a block is a finally handler, and handlers come one behind the other. -/
theorem pairwise (h : Handlers tryStart tryEnd stop regions) :
  regions.Pairwise fun r s => r.kind ≠ .finalizing ∧ r.handlerEnd ≤ s.handlerStart
  := by
  induction h with
  | nil => exact .nil
  | snoc kind h hcatches hlt ih =>
      rw [List.pairwise_append]
      refine ⟨ih, List.pairwise_singleton _ _, ?_⟩
      intro r hr s hs
      obtain rfl := List.mem_singleton.mp hs
      exact ⟨hcatches r hr, (h.belongs r hr).ended⟩

end Handlers

/-! ## Blocks that are open -/

namespace ProtectedBlock

/-- Where the range starts that is being emitted. -/
def current (block : ProtectedBlock) : Nat :=
  match block.handler with
  | none => block.tryStart
  | some (start, _) => start

/-- The region of the handler being emitted, if it ends at the given position. -/
def ending (block : ProtectedBlock) (stop : Nat) : List Region :=
  match block.handler with
  | none => []
  | some (start, kind) =>
    [{ tryStart := block.tryStart
       tryEnd := match kind with
         | .finalizing => block.finallyProtects
         | .catching _ => block.tryEnd.getD start
       handlerStart := start
       handlerEnd := stop
       kind := kind }]

/-- The block goes on with a handler that starts at the given position. -/
def handling (block : ProtectedBlock) (start : Nat) (kind : HandlerKind) : ProtectedBlock :=
  { block with
    tryEnd := some (block.tryEnd.getD start)
    finallyProtects := if kind = .finalizing then start else block.finallyProtects
    handler := some (start, kind) }

/-- What holds of an open block whose given regions have been recorded. -/
inductive Going (block : ProtectedBlock) : List Region → Prop
  | trying (htryEnd : block.tryEnd = none) (hhandler : block.handler = none) : Going block []
  | handling {tryEnd start : Nat} {kind : HandlerKind} {done : List Region}
      (htryEnd : block.tryEnd = some tryEnd) (hhandler : block.handler = some (start, kind))
      (hrange : block.tryStart < tryEnd) (hdone : Handlers block.tryStart tryEnd start done)
      (hcatches : ∀ r ∈ done, r.kind ≠ .finalizing)
      (hfinally : kind = .finalizing → block.finallyProtects = start) : Going block done

variable {block : ProtectedBlock} {done : List Region} {start stop : Nat} {kind : HandlerKind}

/-- A block without a handler has no regions. -/
theorem Going.of_no_handler (h : block.Going done) (hhandler : block.handler = none) :
  block.tryEnd = none ∧ done = []
  := by
  cases h with
  | trying htryEnd => exact ⟨htryEnd, rfl⟩
  | handling _ hsome =>
      rw [hhandler] at hsome
      cases hsome

/-- The handler being emitted continues the handlers of its block. -/
theorem Going.ending
    (h : block.Going done) (hhandler : block.handler = some (start, kind)) (hlt : start < stop) :
  ∃ tryEnd, block.tryEnd = some tryEnd ∧ block.tryStart < tryEnd
    ∧ block.ending stop = [⟨block.tryStart, kind.rangeEnd tryEnd start, start, stop, kind⟩]
    ∧ Handlers block.tryStart tryEnd stop (done ++ block.ending stop)
  := by
  cases h with
  | trying htryEnd hnone =>
      rw [hnone] at hhandler
      cases hhandler
  | @handling tryEnd _ _ _ htryEnd hhandler' hrange hdone hcatches hfinally =>
      rw [hhandler'] at hhandler
      cases hhandler
      have hregion : block.ending stop
          = [⟨block.tryStart, kind.rangeEnd tryEnd start, start, stop, kind⟩] := by
        rw [ProtectedBlock.ending]
        simp only [hhandler']
        cases kind with
        | catching t => rw [htryEnd]; rfl
        | finalizing => rw [hfinally rfl]; rfl
      refine ⟨tryEnd, htryEnd, hrange, hregion, ?_⟩
      rw [hregion]
      apply Handlers.snoc kind hdone hcatches hlt

/-- A block that is not in a finally handler goes on with another handler. -/
theorem Going.next
    (h : block.Going done) (hcurrent : block.current < stop)
    (hfinally : ∀ start, block.handler ≠ some (start, .finalizing)) (kind : HandlerKind) :
  (block.handling stop kind).Going (done ++ block.ending stop)
  := by
  cases hhandler : block.handler with
  | none =>
      rw [current, hhandler] at hcurrent
      have hnil : block.ending stop = [] := by
        rw [ProtectedBlock.ending, hhandler]
      obtain ⟨htryEnd, rfl⟩ := h.of_no_handler hhandler
      rw [hnil]
      apply Going.handling rfl rfl _ _ (by rintro r ⟨⟩) (fun hkind => if_pos hkind)
      · rw [htryEnd]
        exact hcurrent
      · rw [htryEnd]
        exact .nil
  | some handler =>
      obtain ⟨start, kind'⟩ := handler
      rw [current, hhandler] at hcurrent
      obtain ⟨tryEnd, htryEnd, hrange, hregion, hhandlers⟩ := h.ending hhandler hcurrent
      have htryEnd' : (block.handling stop kind).tryEnd = some tryEnd := by
        rw [ProtectedBlock.handling, htryEnd]
        rfl
      apply Going.handling htryEnd' rfl hrange hhandlers _ (fun hkind => if_pos hkind)
      intro r hr
      obtain hr | hr := List.mem_append.mp hr
      · cases h with
        | trying => cases hr
        | handling _ _ _ _ hcatches => apply hcatches r hr
      · rw [hregion] at hr
        obtain rfl := List.mem_singleton.mp hr
        rintro rfl
        apply hfinally start hhandler

end ProtectedBlock

/-- An open block with its regions that have been recorded. -/
structure BegunBlock where
  block : ProtectedBlock
  done : List Region

/-- A closed block lies before an open one, in a range of it that has ended, or in the range that
is being emitted. -/
def BegunBlock.Places (o : BegunBlock) (b : Block) : Prop :=
  b.stop ≤ o.block.tryStart
  ∨ (∃ tryEnd, o.block.tryEnd = some tryEnd ∧ o.block.tryStart ≤ b.tryStart ∧ b.stop ≤ tryEnd)
  ∨ (∃ r ∈ o.done, b.InHandler r)
  ∨ o.block.current ≤ b.tryStart

/-- When the range that is being emitted ends, a closed block lies before the open one or in a
range of it. -/
theorem BegunBlock.Places.ending
    {o : BegunBlock} {b : Block} (h : o.Places b) (hgoing : o.block.Going o.done) {stop : Nat}
    (hstop : b.stop ≤ stop) :
  b.stop ≤ o.block.tryStart
  ∨ (o.block.tryStart ≤ b.tryStart ∧ b.stop ≤ o.block.tryEnd.getD stop)
  ∨ ∃ r ∈ o.done ++ o.block.ending stop, b.InHandler r
  := by
  obtain hbefore | ⟨tryEnd, htryEnd, hstart, hend⟩ | ⟨r, hr, hin⟩ | hcurrent := h
  · exact .inl hbefore
  · refine .inr (.inl ⟨hstart, ?_⟩)
    rw [htryEnd]
    exact hend
  · exact .inr (.inr ⟨r, List.mem_append_left _ hr, hin⟩)
  · cases hhandler : o.block.handler with
    | none =>
        rw [ProtectedBlock.current, hhandler] at hcurrent
        refine .inr (.inl ⟨hcurrent, ?_⟩)
        rw [(hgoing.of_no_handler hhandler).1]
        exact hstop
    | some handler =>
        obtain ⟨start, kind⟩ := handler
        rw [ProtectedBlock.current, hhandler] at hcurrent
        right; right
        rw [ProtectedBlock.ending, hhandler]
        refine ⟨_, List.mem_append_right _ List.mem_cons_self, ?_⟩
        exact ⟨hcurrent, hstop⟩

/-! ## Emission -/

namespace Emitter

/-- The emitters that emission leads to. -/
inductive Built : Emitter → Prop
  | start (method : String) (returnsValue : Bool) :
      Built { method := method, returnsValue := returnsValue }
  | emitWith {e : Emitter} (he : Built e) (op : Opcode) (operand : Operand) :
      Built (e.emitWith op operand)
  | defineLabel {e : Emitter} (he : Built e) : Built e.defineLabel.2
  | markLabel {e : Emitter} (he : Built e) (l : Label) : Built (e.markLabel l)
  | declareLocal {e : Emitter} (he : Built e) (t : TypeRef) : Built (e.declareLocal t).2
  | beginBlock {e : Emitter} (he : Built e) : Built e.beginBlock.2
  | beginCatch {e e' : Emitter} (he : Built e) {t : TypeRef}
      (hok : e.beginCatch t = .ok e') : Built e'
  | beginFinally {e e' : Emitter} (he : Built e) (hok : e.beginFinally = .ok e') : Built e'
  | endBlock {e e' : Emitter} (he : Built e) (hok : e.endBlock = .ok e') : Built e'
  | sealBodyWith {e : Emitter} (he : Built e)
      (effectOf : Opcode → MethodRef → Option CallEffect) : Built (e.sealBodyWith effectOf).2

variable {e e' : Emitter}

/-- Emission has gone on behind the instructions so far. -/
def Extends (e e' : Emitter) : Prop :=
  e.instructions.toList <+: e'.instructions.toList

theorem Extends.of_eq (h : e'.instructions = e.instructions) : e.Extends e' := by
  use []
  rw [h, List.append_nil]

theorem Extends.position_le (h : e.Extends e') : e.position ≤ e'.position :=
  List.IsPrefix.length_le h

theorem Extends.endsAt
    (h : e.Extends e') {position : Nat} (hends : RangeEndsAt e.instructions position) :
  RangeEndsAt e'.instructions position
  := by
  obtain ⟨hpos, i, hi, hop⟩ := hends
  refine ⟨hpos, i, ?_, hop⟩
  rw [← Array.getElem?_toList] at hi ⊢
  obtain ⟨rest, hrest⟩ := h
  rw [← hrest]
  obtain ⟨hlt, -⟩ := List.getElem?_eq_some_iff.mp hi
  rw [List.getElem?_append_left hlt]
  exact hi

theorem emitWith_of_unfinished (hfinished : e.finished = false) (op : Opcode) (operand : Operand) :
  (e.emitWith op operand).instructions = e.instructions.push ⟨op, operand⟩
    ∧ (e.emitWith op operand).regions = e.regions
    ∧ (e.emitWith op operand).blocks = e.blocks
    ∧ (e.emitWith op operand).finished = false
  := by
  rw [emitWith]
  rw [if_neg (by rw [hfinished]; exact Bool.false_ne_true)]
  exact ⟨rfl, rfl, rfl, hfinished⟩

/-- One more instruction, after which a range can end. -/
theorem extends_push {i : Instruction} (h : e'.instructions = e.instructions.push i) :
  e.Extends e' ∧ e'.position = e.position + 1
    ∧ (i.opcode.EndsRange → RangeEndsAt e'.instructions (e.position + 1))
  := by
  have hposition : e'.position = e.position + 1 := by
    rw [position, h, Array.size_push]
    rfl
  refine ⟨?_, hposition, fun hop => ⟨Nat.succ_pos _, i, ?_, hop⟩⟩
  · rw [Extends, h, Array.toList_push]
    apply List.prefix_append
  · rw [h]
    exact Array.getElem?_push_size

theorem markLabel_keeps (e : Emitter) (l : Label) :
  (e.markLabel l).instructions = e.instructions ∧ (e.markLabel l).regions = e.regions
    ∧ (e.markLabel l).blocks = e.blocks ∧ (e.markLabel l).finished = e.finished
  := by
  rw [markLabel]
  split <;> exact ⟨rfl, rfl, rfl, rfl⟩

/-- Closing the handler of a block records its region. -/
theorem closeHandler_keeps (e : Emitter) :
  e.closeHandler.instructions = e.instructions ∧ e.closeHandler.finished = e.finished
    ∧ ∀ block outer, e.blocks = block :: outer →
      e.closeHandler.regions = e.regions ++ block.ending e.position
      ∧ e.closeHandler.blocks = { block with handler := none } :: outer
  := by
  rw [closeHandler]
  split
  · next hblocks =>
    refine ⟨rfl, rfl, ?_⟩
    intro block outer h
    rw [hblocks] at h
    cases h
  · next block outer hblocks =>
    split
    · next hhandler =>
      refine ⟨rfl, rfl, ?_⟩
      intro b o h
      rw [hblocks] at h
      cases h
      rw [ProtectedBlock.ending, hhandler, List.append_nil, hblocks, ← hhandler]
      exact ⟨rfl, rfl⟩
    · next start kind hhandler =>
      refine ⟨rfl, rfl, ?_⟩
      intro b o h
      rw [hblocks] at h
      cases h
      rw [ProtectedBlock.ending, hhandler]
      exact ⟨rfl, rfl⟩

/-- A handler is opened behind a jump that ends the range before it. -/
theorem openHandler_of_unfinished
    (hfinished : e.finished = false) {block : ProtectedBlock} {outer : List ProtectedBlock}
    (hblocks : e.blocks = block :: outer) (exit : Label) (kind : HandlerKind) :
  (∃ i : Instruction, i.opcode.EndsRange
      ∧ (e.openHandler exit kind).instructions = e.instructions.push i)
    ∧ (e.openHandler exit kind).regions = e.regions ++ block.ending (e.position + 1)
    ∧ (e.openHandler exit kind).blocks = block.handling (e.position + 1) kind :: outer
  := by
  obtain ⟨hinstructions, hregions, hblocks', -⟩ :=
    emitWith_of_unfinished hfinished (.leave .long) (.label exit)
  have hposition := (extends_push hinstructions).2.1
  obtain ⟨hkept, -, hclosed⟩ := closeHandler_keeps (e.emitWith (.leave .long) (.label exit))
  obtain ⟨hended, hopen⟩ := hclosed block outer (hblocks'.trans hblocks)
  have hposition' : (e.emitWith (.leave .long) (.label exit)).closeHandler.position
      = e.position + 1 := by
    rw [← hposition, position, hkept]
    rfl
  rw [openHandler]
  dsimp only
  rw [hopen]
  dsimp only
  rw [hposition', hkept, hinstructions, hended, hregions, hposition]
  refine ⟨⟨_, ?_, rfl⟩, rfl, rfl⟩
  trivial

/-- A block is closed behind an instruction that ends its last handler. -/
theorem endBlock_of_unfinished (hfinished : e.finished = false) (hok : e.endBlock = .ok e') :
  ∃ block outer start kind, e.blocks = block :: outer ∧ block.handler = some (start, kind)
    ∧ (∃ i : Instruction, i.opcode.EndsRange ∧ e'.instructions = e.instructions.push i)
    ∧ e'.regions = e.regions ++ block.ending (e.position + 1) ∧ e'.blocks = outer
  := by
  rw [endBlock] at hok
  split at hok
  · cases hok
  · next block outer hblocks =>
    split at hok
    · cases hok
    · next start kind hhandler =>
      refine ⟨block, outer, start, kind, hblocks, hhandler, ?_⟩
      have hend (op : Opcode) (operand : Operand) (hop : op.EndsRange)
          (heq : e' = { (e.emitWith op operand).closeHandler with
            blocks := (e.emitWith op operand).closeHandler.blocks.tail }.markLabel block.exit) :
          (∃ i : Instruction, i.opcode.EndsRange ∧ e'.instructions = e.instructions.push i)
          ∧ e'.regions = e.regions ++ block.ending (e.position + 1) ∧ e'.blocks = outer := by
        obtain ⟨hinstructions, hregions, hblocks', -⟩ := emitWith_of_unfinished hfinished op operand
        have hposition := (extends_push hinstructions).2.1
        obtain ⟨hkept, -, hclosed⟩ := closeHandler_keeps (e.emitWith op operand)
        obtain ⟨hended, hopen⟩ := hclosed block outer (hblocks'.trans hblocks)
        obtain ⟨hmarked, hmarked', hmarked'', -⟩ :=
          markLabel_keeps { (e.emitWith op operand).closeHandler with
            blocks := (e.emitWith op operand).closeHandler.blocks.tail } block.exit
        rw [heq, hmarked, hmarked', hmarked'']
        dsimp only
        rw [hkept, hinstructions, hended, hregions, hposition, hopen]
        exact ⟨⟨_, hop, rfl⟩, rfl, rfl⟩
      cases hok
      cases kind with
      | finalizing => apply hend .endfinally .none trivial rfl
      | catching t => apply hend (.leave .long) (.label block.exit) trivial rfl

/-! ## Laying out blocks -/

/-- What holds of the regions that have been recorded. -/
structure Recorded (e : Emitter) : Prop where
  sorted : e.regions.Pairwise fun r s => r.handlerEnd < s.handlerEnd
  ended : ∀ r ∈ e.regions, r.handlerEnd ≤ e.position
  cut : ∀ r ∈ e.regions,
    RangeEndsAt e.instructions r.handlerStart ∧ RangeEndsAt e.instructions r.handlerEnd

/-- Where the closed and the open blocks of an emitter lie. -/
structure Standing (e : Emitter) (closed : List Block) (opened : List BegunBlock) : Prop where
  proper : ∀ b ∈ closed, b.Proper ∧ b.stop ≤ e.position
  placed : closed.Pairwise fun b c => b.Before c ∨ b.Within c
  going : ∀ o ∈ opened, o.block.Going o.done ∧ o.block.current ≤ e.position
    ∧ ∀ start kind, o.block.handler = some (start, kind) → RangeEndsAt e.instructions start
  around : opened.Pairwise fun o outer => outer.block.current ≤ o.block.tryStart
  apart : ∀ o ∈ opened, ∀ b ∈ closed, o.Places b

/-- The regions of an emitter are those of some blocks, each of which is closed or open. -/
structure Laid (e : Emitter) (closed : List Block) (opened : List BegunBlock) : Prop where
  recorded : e.Recorded
  blocks : e.blocks = opened.map (·.block)
  regions : e.regions.Perm (closed.flatMap (·.regions) ++ opened.flatMap (·.done))
  standing : e.Standing closed opened

variable {closed : List Block} {opened : List BegunBlock} {o : BegunBlock}

theorem Recorded.grow
    (h : e.Recorded) (hextends : e.Extends e') (hregions : e'.regions = e.regions) :
  e'.Recorded
  := by
  constructor
  · rw [hregions]
    exact h.sorted
  · rw [hregions]
    intro r hr
    apply Nat.le_trans (h.ended r hr) hextends.position_le
  · rw [hregions]
    intro r hr
    apply (h.cut r hr).imp hextends.endsAt hextends.endsAt

/-- The range being emitted ends behind one more instruction. -/
theorem Recorded.ending
    (h : e.Recorded) {block : ProtectedBlock} {i : Instruction} (hop : i.opcode.EndsRange)
    (hinstructions : e'.instructions = e.instructions.push i)
    (hregions : e'.regions = e.regions ++ block.ending (e.position + 1))
    (hends : ∀ start kind, block.handler = some (start, kind) → RangeEndsAt e.instructions start) :
  e'.Recorded
  := by
  obtain ⟨hextends, hposition, hcut⟩ := extends_push hinstructions
  have hnew : ∀ r ∈ block.ending (e.position + 1), r.handlerEnd = e.position + 1
      ∧ RangeEndsAt e.instructions r.handlerStart := by
    intro r hr
    rw [ProtectedBlock.ending] at hr
    split at hr
    · cases hr
    · next start kind hhandler =>
      obtain rfl := List.mem_singleton.mp hr
      exact ⟨rfl, hends start kind hhandler⟩
  constructor
  · rw [hregions, List.pairwise_append]
    refine ⟨h.sorted, ?_, ?_⟩
    · rw [ProtectedBlock.ending]
      split
      · exact .nil
      · apply List.pairwise_singleton
    · intro r hr s hs
      rw [(hnew s hs).1]
      apply Nat.lt_succ_of_le (h.ended r hr)
  · rw [hregions, hposition]
    intro r hr
    obtain hr | hr := List.mem_append.mp hr
    · apply Nat.le_succ_of_le (h.ended r hr)
    · apply Nat.le_of_eq (hnew r hr).1
  · rw [hregions]
    intro r hr
    obtain hr | hr := List.mem_append.mp hr
    · apply (h.cut r hr).imp hextends.endsAt hextends.endsAt
    · obtain ⟨hstop, hstart⟩ := hnew r hr
      rw [hstop]
      exact ⟨hextends.endsAt hstart, hcut hop⟩

theorem Standing.grow (h : e.Standing closed opened) (hextends : e.Extends e') :
  e'.Standing closed opened
  := by
  have hle := hextends.position_le
  refine ⟨?_, h.placed, ?_, h.around, h.apart⟩
  · intro b hb
    apply (h.proper b hb).imp_right fun hstop => Nat.le_trans hstop hle
  · intro o ho
    obtain ⟨hgoing, hcurrent, hends⟩ := h.going o ho
    refine ⟨hgoing, Nat.le_trans hcurrent hle, ?_⟩
    intro start kind hhandler
    apply hextends.endsAt (hends start kind hhandler)

theorem Standing.tail (h : e.Standing closed (o :: opened)) : e.Standing closed opened where
  proper := h.proper
  placed := h.placed
  going := fun o ho => h.going o (List.mem_cons_of_mem _ ho)
  around := h.around.of_cons
  apart := fun o ho => h.apart o (List.mem_cons_of_mem _ ho)

/-- A block opens where emission goes on. -/
theorem Standing.opens (h : e.Standing closed opened) {block : ProtectedBlock}
    (hstart : block.tryStart = e.position) (htryEnd : block.tryEnd = none)
    (hhandler : block.handler = none) :
  e.Standing closed (⟨block, []⟩ :: opened)
  := by
  constructor
  case proper => exact h.proper
  case placed => exact h.placed
  case going =>
    refine List.forall_mem_cons.mpr ⟨⟨.trying htryEnd hhandler, ?_, ?_⟩, h.going⟩
    · rw [ProtectedBlock.current, hhandler]
      apply Nat.le_of_eq hstart
    · rintro start kind hsome
      rw [hhandler] at hsome
      cases hsome
  case around =>
    refine List.Pairwise.cons ?_ h.around
    intro outer houter
    rw [hstart]
    apply (h.going outer houter).2.1
  case apart =>
    refine List.forall_mem_cons.mpr ⟨?_, h.apart⟩
    intro b hb
    left
    rw [hstart]
    apply (h.proper b hb).2

/-- The innermost block goes on with another handler. -/
theorem Standing.handles
    (h : e.Standing closed (o :: opened)) {i : Instruction} (hop : i.opcode.EndsRange)
    (hinstructions : e'.instructions = e.instructions.push i)
    (hfinally : ∀ start, o.block.handler ≠ some (start, .finalizing)) (kind : HandlerKind) :
  e'.Standing closed (⟨o.block.handling (e.position + 1) kind,
    o.done ++ o.block.ending (e.position + 1)⟩ :: opened)
  := by
  obtain ⟨hextends, hposition, hcut⟩ := extends_push hinstructions
  have houter := h.tail.grow hextends
  obtain ⟨hgoing, hcurrent, -⟩ := h.going o List.mem_cons_self
  constructor
  case proper => exact houter.proper
  case placed => exact houter.placed
  case going =>
    refine List.forall_mem_cons.mpr ⟨⟨?_, ?_, ?_⟩, houter.going⟩
    · apply hgoing.next (Nat.lt_succ_of_le hcurrent) hfinally
    · apply Nat.le_of_eq hposition.symm
    · rintro start kind' ⟨⟩
      apply hcut hop
  case around =>
    obtain ⟨hinner, -⟩ := List.pairwise_cons.mp h.around
    exact List.pairwise_cons.mpr ⟨hinner, houter.around⟩
  case apart =>
    refine List.forall_mem_cons.mpr ⟨?_, houter.apart⟩
    intro b hb
    have hstop := Nat.le_succ_of_le (h.proper b hb).2
    obtain hbefore | ⟨hstart, hend⟩ | hin :=
      (h.apart o List.mem_cons_self b hb).ending hgoing hstop
    · exact .inl hbefore
    · exact .inr (.inl ⟨_, rfl, hstart, hend⟩)
    · exact .inr (.inr (.inl hin))

/-- The innermost block is closed. -/
theorem Standing.closes
    (h : e.Standing closed (o :: opened)) {i : Instruction}
    (hinstructions : e'.instructions = e.instructions.push i) {start : Nat} {kind : HandlerKind}
    (hhandler : o.block.handler = some (start, kind)) :
  ∃ b : Block, b.regions = o.done ++ o.block.ending (e.position + 1)
    ∧ e'.Standing (closed ++ [b]) opened
  := by
  obtain ⟨hextends, hposition, -⟩ := extends_push hinstructions
  have houter := h.tail.grow hextends
  obtain ⟨hgoing, hcurrent, -⟩ := h.going o List.mem_cons_self
  have hstart : start < e.position + 1 := by
    rw [ProtectedBlock.current, hhandler] at hcurrent
    apply Nat.lt_succ_of_le hcurrent
  obtain ⟨tryEnd, htryEnd, hrange, hregion, hhandlers⟩ := hgoing.ending hhandler hstart
  let b : Block :=
    ⟨o.block.tryStart, tryEnd, e.position + 1, o.done ++ o.block.ending (e.position + 1)⟩
  have hproper : b.Proper := by
    refine ⟨hrange, ?_, hhandlers⟩
    show o.done ++ _ ≠ []
    rw [hregion]
    simp
  refine ⟨b, rfl, ?_⟩
  constructor
  case proper =>
    rw [List.forall_mem_append]
    refine ⟨houter.proper, List.forall_mem_singleton.mpr ⟨hproper, ?_⟩⟩
    apply Nat.le_of_eq hposition.symm
  case placed =>
    rw [List.pairwise_append]
    refine ⟨houter.placed, List.pairwise_singleton _ _, ?_⟩
    intro c hc b' hb'
    obtain rfl := List.mem_singleton.mp hb'
    have hstop := Nat.le_succ_of_le (h.proper c hc).2
    obtain hbefore | ⟨hfirst, hend⟩ | hin :=
      (h.apart o List.mem_cons_self c hc).ending hgoing hstop
    · exact .inl hbefore
    · rw [htryEnd] at hend
      exact .inr (.inl ⟨hfirst, hend⟩)
    · exact .inr (.inr hin)
  case going => exact houter.going
  case around => exact houter.around
  case apart =>
    intro outer hmem
    rw [List.forall_mem_append]
    refine ⟨houter.apart outer hmem, List.forall_mem_singleton.mpr ?_⟩
    right; right; right
    apply (List.pairwise_cons.mp h.around).1 outer hmem

/-- The region of the handler that ends belongs to its block. -/
theorem Laid.perm_ending (h : e.Laid closed (o :: opened)) (stop : Nat) :
  (e.regions ++ o.block.ending stop).Perm
    (closed.flatMap (·.regions)
      ++ (o.done ++ o.block.ending stop ++ opened.flatMap (·.done)))
  := by
  refine (h.regions.append_right _).trans ?_
  rw [List.flatMap_cons, List.append_assoc, List.append_assoc, List.append_assoc]
  apply List.Perm.append_left
  apply List.Perm.append_left
  apply List.perm_append_comm

/-- Emission that leaves blocks and regions alone. -/
theorem Laid.grow
    (h : e.Laid closed opened) (hextends : e.Extends e') (hregions : e'.regions = e.regions)
    (hblocks : e'.blocks = e.blocks) :
  e'.Laid closed opened
  := by
  refine ⟨h.recorded.grow hextends hregions, ?_, ?_, h.standing.grow hextends⟩
  · rw [hblocks]
    exact h.blocks
  · rw [hregions]
    exact h.regions

theorem Laid.beginBlock (h : e.Laid closed opened) :
  ∃ o, e.beginBlock.2.Laid closed (o :: opened)
  := by
  have hextends : e.Extends e.beginBlock.2 := .of_eq rfl
  refine ⟨⟨⟨e.position, ⟨e.labels.size⟩, none, none, 0⟩, []⟩,
    h.recorded.grow hextends rfl, ?_, h.regions, (h.standing.grow hextends).opens rfl rfl rfl⟩
  rw [List.map_cons, ← h.blocks]
  rfl

theorem Laid.openHandler
    (h : e.Laid closed (o :: opened)) (hfinished : e.finished = false)
    (hfinally : ∀ start, o.block.handler ≠ some (start, .finalizing)) (exit : Label)
    (kind : HandlerKind) :
  ∃ o, (e.openHandler exit kind).Laid closed (o :: opened)
  := by
  obtain ⟨⟨i, hop, hinstructions⟩, hregions, hblocks⟩ :=
    openHandler_of_unfinished hfinished h.blocks exit kind
  obtain ⟨-, -, hends⟩ := h.standing.going o List.mem_cons_self
  have hstanding := h.standing.handles hop hinstructions hfinally kind
  refine ⟨_, h.recorded.ending hop hinstructions hregions hends, ?_, ?_, hstanding⟩
  · exact hblocks
  · rw [hregions]
    apply h.perm_ending

theorem Laid.endBlock
    (h : e.Laid closed opened) (hfinished : e.finished = false) (hok : e.endBlock = .ok e') :
  ∃ closed opened, e'.Laid closed opened
  := by
  obtain ⟨block, outer, start, kind, hblocks, hhandler, ⟨i, hop, hinstructions⟩, hregions,
    hblocks'⟩ := endBlock_of_unfinished hfinished hok
  have hopened := h.blocks
  rw [hblocks] at hopened
  cases opened with
  | nil => cases hopened
  | cons o opened =>
      obtain ⟨rfl, rfl⟩ := List.cons.inj hopened
      obtain ⟨-, -, hends⟩ := h.standing.going o List.mem_cons_self
      obtain ⟨b, hb, hstanding⟩ := h.standing.closes hinstructions hhandler
      refine ⟨_, opened, h.recorded.ending hop hinstructions hregions hends, hblocks', ?_,
        hstanding⟩
      rw [hregions, List.flatMap_append, List.flatMap_singleton, hb, List.append_assoc]
      apply h.perm_ending

theorem emitWith_finished (e : Emitter) (op : Opcode) (operand : Operand) :
  (e.emitWith op operand).finished = e.finished
  := by
  rw [emitWith, recordSealed]
  split
  · split <;> rfl
  · rfl

theorem openHandler_finished (e : Emitter) (exit : Label) (kind : HandlerKind) :
  (e.openHandler exit kind).finished = e.finished
  := by
  have hclosed : (e.emitWith (.leave .long) (.label exit)).closeHandler.finished = e.finished :=
    (closeHandler_keeps _).2.1.trans (e.emitWith_finished _ _)
  rw [openHandler]
  dsimp only
  split <;> exact hclosed

/-- Once sealed, an emitter stays so. -/
theorem endBlock_finished (hok : e.endBlock = .ok e') : e'.finished = e.finished := by
  rw [endBlock] at hok
  split at hok
  · cases hok
  · split at hok
    · cases hok
    · cases hok
      rw [(markLabel_keeps _ _).2.2.2]
      refine (closeHandler_keeps _).2.1.trans ?_
      split <;> apply emitWith_finished

theorem sealBodyWith_finished (e : Emitter) (effectOf : Opcode → MethodRef → Option CallEffect) :
  (e.sealBodyWith effectOf).2.finished = true
  := by
  rw [sealBodyWith]
  split
  · next h => exact h
  · split
    · rfl
    · dsimp only
      split <;> rfl

/-- Emission goes on with a handler of a block that is not in a finally handler. -/
def Begins (e : Emitter) (kind : HandlerKind) (e' : Emitter) : Prop :=
  ∃ block outer, e.blocks = block :: outer
    ∧ (∀ start, block.handler ≠ some (start, .finalizing))
    ∧ e' = e.openHandler block.exit kind

theorem handler_ne_of_not_inFinally {block : ProtectedBlock}
    (h : ¬ ProtectedBlock.inFinally block) (start : Nat) :
  block.handler ≠ some (start, .finalizing)
  := by
  intro hhandler
  rw [ProtectedBlock.inFinally, hhandler] at h
  cases h rfl

theorem begins_of_beginCatch {t : TypeRef} (hok : e.beginCatch t = .ok e') :
  e.Begins (.catching t) e'
  := by
  rw [beginCatch] at hok
  split at hok
  · cases hok
  · next block outer hblocks =>
    split at hok
    · cases hok
    · next hfinally =>
      exact ⟨block, outer, hblocks, handler_ne_of_not_inFinally hfinally, (Except.ok.inj hok).symm⟩

theorem begins_of_beginFinally (hok : e.beginFinally = .ok e') : e.Begins .finalizing e' := by
  rw [beginFinally] at hok
  split at hok
  · cases hok
  · next block outer hblocks =>
    split at hok
    · cases hok
    · next hfinally =>
      exact ⟨block, outer, hblocks, handler_ne_of_not_inFinally hfinally, (Except.ok.inj hok).symm⟩

theorem Begins.finished {kind : HandlerKind} (h : e.Begins kind e') : e'.finished = e.finished := by
  obtain ⟨block, outer, -, -, rfl⟩ := h
  apply openHandler_finished

theorem Laid.begins
    (h : e.Laid closed opened) {kind : HandlerKind} (hfinished : e.finished = false)
    (hbegins : e.Begins kind e') :
  ∃ closed opened, e'.Laid closed opened
  := by
  obtain ⟨block, outer, hblocks, hfinally, rfl⟩ := hbegins
  have hopened := h.blocks
  rw [hblocks] at hopened
  cases opened with
  | nil => cases hopened
  | cons o opened =>
      obtain ⟨rfl, rfl⟩ := List.cons.inj hopened
      obtain ⟨o', hlaid⟩ := h.openHandler hfinished hfinally o.block.exit kind
      exact ⟨closed, _, hlaid⟩

theorem Built.laid (hbuilt : e.Built) (hfinished : e.finished = false) :
  ∃ closed opened, e.Laid closed opened
  := by
  induction hbuilt with
  | start method returnsValue =>
      refine ⟨[], [], ⟨.nil, ?_, ?_⟩, rfl, .nil, ⟨?_, .nil, ?_, .nil, ?_⟩⟩
      · rintro r ⟨⟩
      · rintro r ⟨⟩
      · rintro b ⟨⟩
      · rintro o ⟨⟩
      · rintro o ⟨⟩
  | @emitWith e _ op operand ih =>
      rw [e.emitWith_finished] at hfinished
      obtain ⟨closed, opened, hlaid⟩ := ih hfinished
      obtain ⟨hinstructions, hregions, hblocks, -⟩ := emitWith_of_unfinished hfinished op operand
      exact ⟨closed, opened, hlaid.grow (extends_push hinstructions).1 hregions hblocks⟩
  | defineLabel _ ih =>
      obtain ⟨closed, opened, hlaid⟩ := ih hfinished
      exact ⟨closed, opened, hlaid.grow (.of_eq rfl) rfl rfl⟩
  | @markLabel e _ l ih =>
      obtain ⟨hinstructions, hregions, hblocks, hmarked⟩ := e.markLabel_keeps l
      rw [hmarked] at hfinished
      obtain ⟨closed, opened, hlaid⟩ := ih hfinished
      exact ⟨closed, opened, hlaid.grow (.of_eq hinstructions) hregions hblocks⟩
  | declareLocal _ t ih =>
      obtain ⟨closed, opened, hlaid⟩ := ih hfinished
      exact ⟨closed, opened, hlaid.grow (.of_eq rfl) rfl rfl⟩
  | beginBlock _ ih =>
      obtain ⟨closed, opened, hlaid⟩ := ih hfinished
      obtain ⟨o, hlaid⟩ := hlaid.beginBlock
      exact ⟨closed, _, hlaid⟩
  | beginCatch _ hok ih =>
      have hbegins := begins_of_beginCatch hok
      rw [hbegins.finished] at hfinished
      obtain ⟨closed, opened, hlaid⟩ := ih hfinished
      apply hlaid.begins hfinished hbegins
  | beginFinally _ hok ih =>
      have hbegins := begins_of_beginFinally hok
      rw [hbegins.finished] at hfinished
      obtain ⟨closed, opened, hlaid⟩ := ih hfinished
      apply hlaid.begins hfinished hbegins
  | endBlock _ hok ih =>
      rw [endBlock_finished hok] at hfinished
      obtain ⟨closed, opened, hlaid⟩ := ih hfinished
      apply hlaid.endBlock hfinished hok
  | @sealBodyWith e _ effectOf _ =>
      rw [e.sealBodyWith_finished effectOf] at hfinished
      cases hfinished

end Emitter

/-! ## The blocks of a sealed body -/

/-- The regions of a body are those of the given blocks. -/
structure MethodBody.Arranged (body : MethodBody) (blocks : List Block) : Prop where
  regions : body.regions.Perm (blocks.flatMap (·.regions))
  sorted : body.regions.Pairwise fun r s => r.handlerEnd < s.handlerEnd
  cut : ∀ r ∈ body.regions,
    RangeEndsAt body.instructions r.handlerStart ∧ RangeEndsAt body.instructions r.handlerEnd
  proper : ∀ b ∈ blocks, b.Proper ∧ b.stop ≤ body.instructions.size
  placed : blocks.Pairwise fun b c => b.Before c ∨ b.Within c

namespace Emitter

variable {e : Emitter}

/-- Whether an instruction ends a range does not depend on the width of branches. -/
theorem rangeEndsAt_relax {position : Nat} (h : RangeEndsAt e.instructions position) :
  RangeEndsAt e.relax.instructions position
  := by
  obtain ⟨hpos, i, hi, hop⟩ := h
  refine ⟨hpos, e.relaxInstruction (position - 1) i, ?_, ?_⟩
  · have hrelax : e.relax.instructions = e.instructions.mapIdx e.relaxInstruction := rfl
    rw [hrelax, Array.getElem?_mapIdx, hi]
    rfl
  · rw [relaxInstruction]
    split
    · split
      · apply hop.withWidth
      · exact hop
    · exact hop

/-- The blocks of a sealed body are those that have been closed. -/
theorem Built.arranged
    {effectOf : Opcode → MethodRef → Option CallEffect} {body : MethodBody}
    (hbuilt : e.Built) (hok : (e.sealBodyWith effectOf).1 = .ok body) :
  ∃ blocks, body.Arranged blocks
  := by
  obtain ⟨hfinished, hcheck, maxStack, -, rfl⟩ := sealBodyWith_ok hok
  obtain ⟨closed, opened, hlaid⟩ := hbuilt.laid hfinished
  have hnone : opened = [] := by
    have hblocks := openBlocks_of_check hcheck
    rw [hlaid.blocks] at hblocks
    exact List.map_eq_nil_iff.mp hblocks
  subst hnone
  have hsize : e.relax.instructions.size = e.position := Array.size_mapIdx
  refine ⟨closed, ?_, hlaid.recorded.sorted, ?_, ?_, hlaid.standing.placed⟩
  · simpa using hlaid.regions
  · intro r hr
    apply (hlaid.recorded.cut r hr).imp rangeEndsAt_relax rangeEndsAt_relax
  · intro b hb
    rw [hsize]
    apply hlaid.standing.proper b hb

end Emitter

namespace Block

variable {b : Block} {r s : Region}

theorem Proper.belongs (h : b.Proper) (hr : r ∈ b.regions) :
  r.Belongs b.tryStart b.tryEnd b.stop
  := h.handlers.belongs r hr

/-- Of two handlers of a block, the first is a catch handler, and ends before the other starts. -/
theorem Proper.order (h : b.Proper) (hr : r ∈ b.regions) (hs : s ∈ b.regions) :
  r = s ∨ (r.kind ≠ .finalizing ∧ r.handlerEnd ≤ s.handlerStart)
    ∨ (s.kind ≠ .finalizing ∧ s.handlerEnd ≤ r.handlerStart)
  := pairwise_cases h.handlers.pairwise hr hs

end Block

/-- The range of a region ends with that of its block, or for a finally handler at its start. -/
theorem Region.Belongs.tryEnd_cases
    {tryStart tryEnd stop : Nat} {r : Region} (h : r.Belongs tryStart tryEnd stop) :
  (r.kind ≠ .finalizing ∧ r.tryEnd = tryEnd) ∨ (r.kind = .finalizing ∧ r.tryEnd = r.handlerStart)
  := by
  have htryEnd := h.tryEnd_eq
  cases hkind : r.kind with
  | catching t =>
      left
      rw [hkind] at htryEnd
      exact ⟨by rintro ⟨⟩, htryEnd⟩
  | finalizing =>
      right
      rw [hkind] at htryEnd
      exact ⟨rfl, htryEnd⟩

namespace MethodBody.Arranged

variable {body : MethodBody} {blocks : List Block} {b c : Block} {r s : Region}

/-- Every region is that of a block. -/
theorem exists_block (h : body.Arranged blocks) (hr : r ∈ body.regions) :
  ∃ b ∈ blocks, r ∈ b.regions
  := List.mem_flatMap.mp (h.regions.mem_iff.mp hr)

theorem mem_regions (h : body.Arranged blocks) (hb : b ∈ blocks) (hr : r ∈ b.regions) :
  r ∈ body.regions
  := h.regions.mem_iff.mpr (List.mem_flatMap.mpr ⟨b, hb, hr⟩)

/-- Two blocks lie one before the other or one within the other. -/
theorem placed_cases (h : body.Arranged blocks) (hb : b ∈ blocks) (hc : c ∈ blocks) :
  b = c ∨ (b.Before c ∨ b.Within c) ∨ (c.Before b ∨ c.Within b)
  := pairwise_cases h.placed hb hc

end MethodBody.Arranged

end ManagedCode
