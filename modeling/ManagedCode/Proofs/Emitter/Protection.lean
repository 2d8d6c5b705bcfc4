import ManagedCode.Emitter.Instructions
import ManagedCode.Proofs.Emitter.Nesting
import Mathlib.Logic.Relation

/-!
# Protection

Whatever calls have been made on an emitter, the regions of the body that it is sealed to
are those of protected blocks (`MethodBody.Structured`), and a call on blocks that fails
leaves the emitter as it was (`Emitter.structured_of_calls`).  A region of an inner block
comes before those regions of a block around it that have not ended when the inner block
is opened.
-/

namespace ManagedCode

open Relation

/-! ## Calls -/

namespace Emitter

/-- The calls of an emitter. -/
inductive Call where
  | emitWith (op : Opcode) (operand : Operand)
  | loadI32 (v : Int32)
  | loadArg (i : UInt16)
  | storeArg (i : UInt16)
  | loadLocal (i : UInt16)
  | storeLocal (i : UInt16)
  | loadConstant (c : Constant)
  | loadDefault (t : TypeRef)
  | convertTo (t : TypeRef)
  | convertToChecked (t : TypeRef)
  | convert (source target : TypeRef)
  | boxAs (t : TypeRef)
  | unboxAs (t : TypeRef)
  | throwFrom (constructor : MethodRef)
  | defineLabel
  | markLabel (l : Label)
  | declareLocal (t : TypeRef)
  | beginBlock
  | beginCatch (exception : TypeRef)
  | beginFinally
  | endBlock
  | sealBodyWith (effectOf : Opcode → MethodRef → Option CallEffect)

/-- The emitter after a call that can fail, and how the call ended. -/
def attempt (e : Emitter) : Except EmitError Emitter → Except EmitError Unit × Emitter
  | .ok e' => (.ok (), e')
  | .error error => (.error error, e)

/-- How a call ends, and the emitter after it. -/
def Call.perform (e : Emitter) : Call → Except EmitError Unit × Emitter
  | .emitWith op operand => (.ok (), e.emitWith op operand)
  | .loadI32 v => (.ok (), e.loadI32 v)
  | .loadArg i => (.ok (), e.loadArg i)
  | .storeArg i => (.ok (), e.storeArg i)
  | .loadLocal i => (.ok (), e.loadLocal i)
  | .storeLocal i => (.ok (), e.storeLocal i)
  | .loadConstant c => (.ok (), e.loadConstant c)
  | .loadDefault t => e.attempt (e.loadDefault t)
  | .convertTo t => e.attempt (e.convertTo t)
  | .convertToChecked t => e.attempt (e.convertToChecked t)
  | .convert source target => e.attempt (e.convert source target)
  | .boxAs t => (.ok (), e.boxAs t)
  | .unboxAs t => (.ok (), e.unboxAs t)
  | .throwFrom constructor => (.ok (), e.throwFrom constructor)
  | .defineLabel => (.ok (), e.defineLabel.2)
  | .markLabel l => (.ok (), e.markLabel l)
  | .declareLocal t => (.ok (), (e.declareLocal t).2)
  | .beginBlock => (.ok (), e.beginBlock.2)
  | .beginCatch exception => e.attempt (e.beginCatch exception)
  | .beginFinally => e.attempt e.beginFinally
  | .endBlock => e.attempt e.endBlock
  | .sealBodyWith effectOf =>
    let (answer, e) := e.sealBodyWith effectOf
    (answer.map fun _ => (), e)

/-- The emitter after some calls. -/
def run (e : Emitter) (calls : List Call) : Emitter :=
  calls.foldl (fun e call => (call.perform e).2) e

/-- Calls in sequence. -/
theorem run_append (e : Emitter) (earlier later : List Call) :
  e.run (earlier ++ later) = (e.run earlier).run later
  := List.foldl_append

/-- The calls that continue or close a protected block. -/
def Call.OnBlock : Call → Prop
  | .beginCatch _ => True
  | .beginFinally => True
  | .endBlock => True
  | _ => False

/-- A call on blocks that fails leaves the emitter as it was. -/
theorem Call.unchanged_of_error {e : Emitter} {call : Call} {error : EmitError}
    (hblock : call.OnBlock) (herror : (call.perform e).1 = .error error) :
  (call.perform e).2 = e
  := by
  have hattempt : ∀ {result}, (e.attempt result).1 = .error error → (e.attempt result).2 = e := by
    intro result h
    cases result with
    | ok e' => cases h
    | error error => rfl
  cases call with
  | beginCatch exception => exact hattempt herror
  | beginFinally => exact hattempt herror
  | endBlock => exact hattempt herror
  | _ => cases hblock

/-! ### What calls are made of -/

/-- The calls that all others are made of. -/
inductive Step : Emitter → Emitter → Prop
  | emitWith (e : Emitter) (op : Opcode) (operand : Operand) : Step e (e.emitWith op operand)
  | defineLabel (e : Emitter) : Step e e.defineLabel.2
  | markLabel (e : Emitter) (l : Label) : Step e (e.markLabel l)
  | declareLocal (e : Emitter) (t : TypeRef) : Step e (e.declareLocal t).2
  | beginBlock (e : Emitter) : Step e e.beginBlock.2
  | beginCatch {e e' : Emitter} {t : TypeRef} (hok : e.beginCatch t = .ok e') : Step e e'
  | beginFinally {e e' : Emitter} (hok : e.beginFinally = .ok e') : Step e e'
  | endBlock {e e' : Emitter} (hok : e.endBlock = .ok e') : Step e e'
  | sealBodyWith (e : Emitter) (effectOf : Opcode → MethodRef → Option CallEffect) :
      Step e (e.sealBodyWith effectOf).2

/-- An emitter comes from another one by calls. -/
abbrev Steps : Emitter → Emitter → Prop :=
  ReflTransGen Step

namespace Steps

variable {e e' : Emitter}

/-- Emitting an instruction is a step. -/
theorem emitWith (e : Emitter) (op : Opcode) (operand : Operand) :
  e.Steps (e.emitWith op operand)
  := .single (.emitWith e op operand)

theorem loadI32 (e : Emitter) (v : Int32) : e.Steps (e.loadI32 v) := by
  rw [Emitter.loadI32]
  split
  · apply emitWith
  · split
    · apply emitWith
    · split <;> apply emitWith

theorem loadLocal (e : Emitter) (i : UInt16) : e.Steps (e.loadLocal i) := by
  rw [Emitter.loadLocal]
  split
  · apply emitWith
  · split <;> apply emitWith

theorem loadConstant (e : Emitter) (c : Constant) : e.Steps (e.loadConstant c) := by
  cases c with
  | bool b => apply loadI32
  | i32 v => apply loadI32
  | _ => apply emitWith

theorem loadDefault {t : TypeRef} (hok : e.loadDefault t = .ok e') : e.Steps e' := by
  rw [Emitter.loadDefault] at hok
  split at hok
  all_goals cases hok
  all_goals first
    | apply loadI32
    | apply ReflTransGen.head (.declareLocal e t) (loadLocal _ _)
    | apply emitWith

theorem convertTo {t : TypeRef} (hok : e.convertTo t = .ok e') : e.Steps e' := by
  rw [Emitter.convertTo] at hok
  split at hok
  all_goals cases hok
  all_goals apply emitWith

theorem convertToChecked {t : TypeRef} (hok : e.convertToChecked t = .ok e') : e.Steps e' := by
  rw [Emitter.convertToChecked] at hok
  split at hok
  · cases hok
    apply emitWith
  · apply convertTo hok
  · cases hok

theorem convert {source target : TypeRef} (hok : e.convert source target = .ok e') :
  e.Steps e'
  := by
  rw [Emitter.convert] at hok
  split at hok
  · apply (emitWith e _ _).trans (convertTo hok)
  · split at hok
    · cases hok
      exact .refl
    · apply convertTo hok

theorem boxAs (e : Emitter) (t : TypeRef) : e.Steps (e.boxAs t) := by
  rw [Emitter.boxAs]
  split
  · apply emitWith
  · exact .refl

theorem unboxAs (e : Emitter) (t : TypeRef) : e.Steps (e.unboxAs t) := by
  rw [Emitter.unboxAs]
  split
  · exact .refl
  · split <;> apply emitWith

theorem attempt {result : Except EmitError Emitter} (h : ∀ e', result = .ok e' → e.Steps e') :
  e.Steps (e.attempt result).2
  := by
  cases result with
  | ok e' => apply h e' rfl
  | error error => exact .refl

/-- Every call is made of such calls. -/
theorem perform (e : Emitter) (call : Call) : e.Steps (call.perform e).2 := by
  cases call with
  | emitWith op operand => apply emitWith
  | loadI32 v => apply loadI32
  | loadArg i =>
      change e.Steps (e.loadArg i)
      rw [Emitter.loadArg]
      split
      · apply emitWith
      · split <;> apply emitWith
  | storeArg i =>
      change e.Steps (e.storeArg i)
      rw [Emitter.storeArg]
      split <;> apply emitWith
  | loadLocal i => apply loadLocal
  | storeLocal i =>
      change e.Steps (e.storeLocal i)
      rw [Emitter.storeLocal]
      split
      · apply emitWith
      · split <;> apply emitWith
  | loadConstant c => apply loadConstant
  | loadDefault t => exact attempt fun _ => loadDefault
  | convertTo t => exact attempt fun _ => convertTo
  | convertToChecked t => exact attempt fun _ => convertToChecked
  | convert source target => exact attempt fun _ => convert
  | boxAs t => apply boxAs
  | unboxAs t => apply unboxAs
  | throwFrom constructor => exact (emitWith e _ _).trans (emitWith _ _ _)
  | defineLabel => exact .single (.defineLabel e)
  | markLabel l => exact .single (.markLabel e l)
  | declareLocal t => exact .single (.declareLocal e t)
  | beginBlock => exact .single (.beginBlock e)
  | beginCatch exception => exact attempt fun _ hok => .single (.beginCatch hok)
  | beginFinally => exact attempt fun _ hok => .single (.beginFinally hok)
  | endBlock => exact attempt fun _ hok => .single (.endBlock hok)
  | sealBodyWith effectOf => exact .single (.sealBodyWith e effectOf)

theorem run (e : Emitter) (calls : List Call) : e.Steps (e.run calls) := by
  induction calls generalizing e with
  | nil => exact .refl
  | cons call calls ih => apply (perform e call).trans (ih _)

end Steps

namespace Built

variable {e e' : Emitter}

/-- The emitter stays well built through a step. -/
theorem step (he : e.Built) (hstep : e.Step e') : e'.Built := by
  cases hstep with
  | emitWith op operand => apply he.emitWith
  | defineLabel => apply he.defineLabel
  | markLabel l => apply he.markLabel
  | declareLocal t => apply he.declareLocal
  | beginBlock => apply he.beginBlock
  | beginCatch hok => apply he.beginCatch hok
  | beginFinally hok => apply he.beginFinally hok
  | endBlock hok => apply he.endBlock hok
  | sealBodyWith effectOf => apply he.sealBodyWith

/-- It stays well built through every sequence of steps. -/
theorem steps (he : e.Built) (hsteps : e.Steps e') : e'.Built := by
  induction hsteps with
  | refl => exact he
  | tail _ hstep ih => apply ih.step hstep

theorem run (he : e.Built) (calls : List Call) : (e.run calls).Built := he.steps (Steps.run e calls)

end Built

end Emitter

/-! ## The order of regions -/

/-- A region is listed before another one. -/
def Region.Earlier (regions : List Region) (r s : Region) : Prop :=
  ∃ i j : Nat, i < j ∧ regions[i]? = some r ∧ regions[j]? = some s

/-- How the regions of a body make up blocks. -/
structure MethodBody.Structured (body : MethodBody) (blocks : List Block) : Prop where
  /-- Every region is that of one block. -/
  regions : body.regions.Perm (blocks.flatMap (·.regions)) ∧ body.regions.Nodup
  /-- A protected range holds an instruction and comes before its handler, which holds one. -/
  ranges : ∀ r ∈ body.regions, r.tryStart < r.tryEnd ∧ r.tryEnd ≤ r.handlerStart
    ∧ r.handlerStart < r.handlerEnd ∧ r.handlerEnd ≤ body.instructions.size
  /-- Control does not fall into a handler nor out of it. -/
  cut : ∀ r ∈ body.regions,
    RangeEndsAt body.instructions r.handlerStart ∧ RangeEndsAt body.instructions r.handlerEnd
  /-- The handlers of a block protect its range and come behind it. -/
  owned : ∀ b ∈ blocks, b.regions ≠ [] ∧ ∀ r ∈ b.regions, r.tryStart = b.tryStart
    ∧ b.tryEnd ≤ r.handlerStart ∧ r.handlerEnd ≤ b.stop ∧ (r.kind ≠ .finalizing → r.tryEnd = b.tryEnd)
  /-- Blocks come one before the other or lie one within a range of the other. -/
  placed : ∀ b ∈ blocks, ∀ c ∈ blocks,
    b = c ∨ b.Before c ∨ c.Before b ∨ b.Within c ∨ c.Within b
  /-- An inner block precedes what has not ended of the block around it. -/
  inner : ∀ b ∈ blocks, ∀ c ∈ blocks, b.Within c → ∀ r ∈ b.regions, ∀ s ∈ c.regions,
    (b.tryStart < s.handlerEnd ∧ Region.Earlier body.regions r s)
    ∨ (s.handlerEnd ≤ b.tryStart ∧ Region.Earlier body.regions s r)
  /-- The handlers of a block come in the order in which they are declared. -/
  declared : ∀ b ∈ blocks, ∀ r ∈ b.regions, ∀ s ∈ b.regions, r.handlerStart < s.handlerStart →
    Region.Earlier body.regions r s
  /-- A finally handler comes last in its block and also protects the catch handlers. -/
  final : ∀ b ∈ blocks, ∀ f ∈ b.regions, f.kind = .finalizing → ∀ r ∈ b.regions, r = f
    ∨ (r.kind ≠ .finalizing ∧ Region.Earlier body.regions r f ∧ f.tryStart = r.tryStart
      ∧ r.tryEnd ≤ f.tryEnd ∧ r.handlerEnd ≤ f.tryEnd)

namespace MethodBody.Arranged

variable {body : MethodBody} {blocks : List Block} {b c : Block} {r s : Region}

/-- Regions come in the order in which their handlers end. -/
theorem earlier_of_lt
    (h : body.Arranged blocks) (hr : r ∈ body.regions) (hs : s ∈ body.regions)
    (hlt : r.handlerEnd < s.handlerEnd) :
  Region.Earlier body.regions r s
  := by
  obtain ⟨i, hi, rfl⟩ := List.mem_iff_getElem.mp hr
  obtain ⟨j, hj, rfl⟩ := List.mem_iff_getElem.mp hs
  refine ⟨i, j, ?_, List.getElem?_eq_getElem hi, List.getElem?_eq_getElem hj⟩
  have hsorted := List.pairwise_iff_getElem.mp h.sorted
  rcases Nat.lt_trichotomy i j with hij | rfl | hji
  · exact hij
  · omega
  · have := hsorted j i hj hi hji
    omega

/-- A region of a block within another one, and a region of that one.  Both handlers may end with
the block, but not at one position. -/
theorem earlier_of_within
    (h : body.Arranged blocks) (hb : b ∈ blocks) (hc : c ∈ blocks) (hwithin : b.Within c)
    (hr : r ∈ b.regions) (hs : s ∈ c.regions) :
  (b.tryStart < s.handlerEnd ∧ Region.Earlier body.regions r s)
  ∨ (s.handlerEnd ≤ b.tryStart ∧ Region.Earlier body.regions s r)
  := by
  have hbproper := (h.proper b hb).1
  have hcproper := (h.proper c hc).1
  obtain ⟨-, -, hrafter, hrnonempty, hrended⟩ := hbproper.belongs hr
  obtain ⟨-, -, hsafter, hsnonempty, -⟩ := hcproper.belongs hs
  have hbrange := hbproper.range
  have hrmem := h.mem_regions hb hr
  have hsmem := h.mem_regions hc hs
  obtain ⟨-, hlast⟩ | ⟨t, ht, hfirst, hlast⟩ := hwithin
  · exact .inl ⟨by omega, h.earlier_of_lt hrmem hsmem (by omega)⟩
  · obtain rfl | ⟨-, hle⟩ | ⟨-, hle⟩ := hcproper.order ht hs
    · refine .inl ⟨by omega, h.earlier_of_lt hrmem hsmem ?_⟩
      obtain rfl | hlt | hlt := pairwise_cases h.sorted hrmem hsmem
      · omega
      · exact hlt
      · omega
    · exact .inl ⟨by omega, h.earlier_of_lt hrmem hsmem (by omega)⟩
    · exact .inr ⟨by omega, h.earlier_of_lt hsmem hrmem (by omega)⟩

/-- Of two handlers of a block, the one that starts first comes first and is a catch handler. -/
theorem earlier_of_order
    (h : body.Arranged blocks) (hb : b ∈ blocks) (hr : r ∈ b.regions) (hs : s ∈ b.regions)
    (hlt : r.handlerStart < s.handlerStart) :
  r.kind ≠ .finalizing ∧ r.handlerEnd ≤ s.handlerStart ∧ Region.Earlier body.regions r s
  := by
  have hproper := (h.proper b hb).1
  have hrnonempty := (hproper.belongs hr).nonempty
  have hsnonempty := (hproper.belongs hs).nonempty
  obtain rfl | ⟨hcatches, hle⟩ | ⟨-, hle⟩ := hproper.order hr hs
  · omega
  · refine ⟨hcatches, hle, ?_⟩
    apply h.earlier_of_lt (h.mem_regions hb hr) (h.mem_regions hb hs)
    omega
  · omega

/-- A finally handler of a block comes last. -/
theorem final_cases
    (h : body.Arranged blocks) (hb : b ∈ blocks) (hs : s ∈ b.regions) (hkind : s.kind = .finalizing)
    (hr : r ∈ b.regions) :
  r = s ∨ (r.kind ≠ .finalizing ∧ Region.Earlier body.regions r s ∧ s.tryStart = r.tryStart
    ∧ r.tryEnd ≤ s.tryEnd ∧ r.handlerEnd ≤ s.tryEnd)
  := by
  have hproper := (h.proper b hb).1
  obtain rfl | ⟨-, hle⟩ | ⟨hcatches, -⟩ := hproper.order hr hs
  · exact .inl rfl
  · have hrbelongs := hproper.belongs hr
    have hsbelongs := hproper.belongs hs
    have hnonempty := hrbelongs.nonempty
    obtain ⟨hcatches, -, hearlier⟩ := h.earlier_of_order hb hr hs (by omega)
    obtain ⟨-, hrend⟩ := hrbelongs.tryEnd_cases.resolve_right fun h => hcatches h.1
    obtain ⟨-, hsend⟩ := hsbelongs.tryEnd_cases.resolve_left fun h => h.1 hkind
    have hafter := hrbelongs.after
    refine .inr ⟨hcatches, hearlier, hsbelongs.tryStart_eq.trans hrbelongs.tryStart_eq.symm, ?_, ?_⟩
    · omega
    · omega
  · cases hcatches hkind

/-- The regions of an arranged body are structured. -/
theorem structured (h : body.Arranged blocks) : body.Structured blocks where
  regions := by
    refine ⟨h.regions, h.sorted.imp ?_⟩
    rintro r s hlt rfl
    apply Nat.lt_irrefl _ hlt
  ranges := fun r hr => h.ranges hr
  cut := h.cut
  owned := by
    intro b hb
    have hproper := (h.proper b hb).1
    refine ⟨hproper.handled, ?_⟩
    intro r hr
    have hbelongs := hproper.belongs hr
    refine ⟨hbelongs.tryStart_eq, hbelongs.after, hbelongs.ended, ?_⟩
    intro hcatches
    exact (hbelongs.tryEnd_cases.resolve_right fun h => hcatches h.1).2
  placed := by
    intro b hb c hc
    obtain rfl | (hbefore | hwithin) | (hbefore | hwithin) := h.placed_cases hb hc
    · exact .inl rfl
    · exact .inr (.inl hbefore)
    · exact .inr (.inr (.inr (.inl hwithin)))
    · exact .inr (.inr (.inl hbefore))
    · exact .inr (.inr (.inr (.inr hwithin)))
  inner := fun b hb c hc hwithin r hr s hs => h.earlier_of_within hb hc hwithin hr hs
  declared := fun b hb r hr s hs hlt => (h.earlier_of_order hb hr hs hlt).2.2
  final := fun b hb s hs hkind r hr => h.final_cases hb hs hkind hr

end MethodBody.Arranged

namespace Emitter

variable {effectOf : Opcode → MethodRef → Option CallEffect} {body : MethodBody}

/-- Whatever calls a body comes from, its regions make up blocks, and a call on blocks that fails
leaves the emitter as it was. -/
theorem structured_of_calls
    (method : String) (returnsValue : Bool) (calls : List Call)
    (hok : ((run { method := method, returnsValue := returnsValue } calls).sealBodyWith effectOf).1
      = .ok body) :
  (∃ blocks, body.Structured blocks)
  ∧ ∀ (e : Emitter) (call : Call) (error : EmitError), call.OnBlock →
      (call.perform e).1 = .error error → (call.perform e).2 = e
  := by
  constructor
  · obtain ⟨blocks, harranged⟩ := ((Built.start method returnsValue).run calls).arranged hok
    exact ⟨blocks, harranged.structured⟩
  · intro e call error hblock herror
    apply Call.unchanged_of_error hblock herror

/-- A block with two catch handlers and a finally handler, of which the second catch handler holds
another block, and between them calls that fail. -/
def handledTwice : List Call :=
  [ .endBlock, .beginBlock, .endBlock, .emitWith .nop .none,
    .beginCatch .object, .emitWith .pop .none,
    .beginCatch .string, .emitWith .pop .none,
      .beginBlock, .emitWith .nop .none, .beginCatch .object, .emitWith .pop .none, .endBlock,
    .beginFinally, .beginCatch .object, .endBlock,
    .emitWith .ret .none]

/-- The inner region is listed between the two catch regions of the block around it. -/
theorem sealed_handledTwice :
  ∃ body, ((run { method := "M" } handledTwice).sealBodyWith fun _ _ => none).1 = .ok body
    ∧ body.regions =
      [ ⟨0, 2, 2, 4, .catching .object⟩, ⟨5, 7, 7, 9, .catching .object⟩,
        ⟨0, 2, 4, 10, .catching .string⟩, ⟨0, 10, 10, 11, .finalizing⟩ ]
  := ⟨_, rfl, rfl⟩

/-- The regions make up blocks, and the first call leaves the emitter as it was. -/
theorem structured_handledTwice :
  ∃ body, ((run { method := "M" } handledTwice).sealBodyWith fun _ _ => none).1 = .ok body
    ∧ (∃ blocks, body.Structured blocks)
    ∧ (Call.endBlock.perform { method := "M" }).2 = { method := "M" }
  := by
  obtain ⟨body, hok, -⟩ := sealed_handledTwice
  obtain ⟨hblocks, hunchanged⟩ := structured_of_calls "M" false handledTwice hok
  exact ⟨body, hok, hblocks, hunchanged _ .endBlock _ trivial rfl⟩

/-- A region of an inner block does not precede every region of the blocks around it. -/
theorem not_inner_first :
  ¬ ∀ (calls : List Call) (body : MethodBody) (blocks : List Block),
      ((run { method := "M" } calls).sealBodyWith fun _ _ => none).1 = .ok body →
      body.Structured blocks →
      ∀ b ∈ blocks, ∀ c ∈ blocks, b.Within c → ∀ r ∈ b.regions, ∀ s ∈ c.regions,
        Region.Earlier body.regions r s
  := by
  intro hclaim
  obtain ⟨body, hok, hregions⟩ := sealed_handledTwice
  obtain ⟨blocks, harranged⟩ := ((Built.start "M" false).run handledTwice).arranged hok
  let first : Region := ⟨0, 2, 2, 4, .catching .object⟩
  let second : Region := ⟨0, 2, 4, 10, .catching .string⟩
  let last : Region := ⟨0, 10, 10, 11, .finalizing⟩
  let held : Region := ⟨5, 7, 7, 9, .catching .object⟩
  let inner : Block := ⟨5, 7, 9, [held]⟩
  let outer : Block := ⟨0, 2, 11, [first, second, last]⟩
  have hinner : inner.Proper := by
    refine ⟨by decide, by decide, ?_⟩
    exact .snoc (.catching .object) .nil (by decide) (by decide)
  have houter : outer.Proper := by
    refine ⟨by decide, by decide, ?_⟩
    have hfirst : Handlers 0 2 4 [first] := .snoc (.catching .object) .nil (by decide) (by decide)
    have hsecond : Handlers 0 2 10 [first, second] :=
      .snoc (.catching .string) hfirst (by decide) (by decide)
    exact .snoc .finalizing hsecond (by decide) (by decide)
  have hwithin : inner.Within outer :=
    .inr ⟨second, List.mem_cons_of_mem _ List.mem_cons_self, by decide, by decide⟩
  have hmem : last ∈ body.regions := by
    rw [hregions]
    decide
  have hstop : 11 ≤ body.instructions.size := (harranged.ranges hmem).2.2.2
  have hblocks : body.Arranged [inner, outer] := by
    refine ⟨?_, harranged.sorted, harranged.cut, ?_, ?_⟩
    · rw [hregions]
      decide
    · refine List.forall_mem_cons.mpr ⟨⟨hinner, ?_⟩, List.forall_mem_singleton.mpr ⟨houter, hstop⟩⟩
      exact Nat.le_trans (by decide) hstop
    · exact List.pairwise_pair.mpr (.inr hwithin)
  obtain ⟨i, j, hij, hi, hj⟩ := hclaim handledTwice body _ hok hblocks.structured inner
    List.mem_cons_self outer (List.mem_cons_of_mem _ List.mem_cons_self) hwithin held
    List.mem_cons_self first List.mem_cons_self
  obtain ⟨hi, hheld⟩ := List.getElem?_eq_some_iff.mp hi
  obtain ⟨hj, hfirst⟩ := List.getElem?_eq_some_iff.mp hj
  have hlt := List.pairwise_iff_getElem.mp harranged.sorted i j hi hj hij
  rw [hheld, hfirst] at hlt
  exact absurd hlt (by decide)

end Emitter

end ManagedCode
