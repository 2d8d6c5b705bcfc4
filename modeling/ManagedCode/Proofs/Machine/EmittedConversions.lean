import ManagedCode.Proofs.Emitter.Protection
import ManagedCode.Proofs.Emitter.Relaxation
import ManagedCode.Proofs.Emitter.Sealing
import ManagedCode.Proofs.Machine.Budget
import ManagedCode.Proofs.Machine.FieldAccess
import ManagedCode.Proofs.Machine.IntegerConversions

/-!
# Conversions between integer types

What the conversion between two types emits, and what running that code does to an integer that both
types have.  The integer takes the form of the target type on the stack, with one exception: an
integer of 32 bits without a sign is read with one when it becomes a signed integer of 64 bits
(`ValueForm.Misread`).
-/

namespace ManagedCode

/-! ## Code of a body -/

/-- Code stands at a position of a body. -/
def MethodBody.Holds (body : MethodBody) (ip : Nat) (code : List Instruction) : Prop :=
  code <+: body.instructions.toList.drop ip

namespace Emitter

variable {e e' : Emitter} {code : List Instruction}

theorem emitWith_extends (hfinished : e.finished = false) (op : Opcode) (operand : Operand) :
  e.Extends (e.emitWith op operand)
  := (extends_push (emitWith_of_unfinished hfinished op operand).1).1

theorem Begins.extends {kind : HandlerKind}
    (h : e.Begins kind e') (hfinished : e.finished = false) :
  e.Extends e'
  := by
  obtain ⟨block, outer, hblocks, -, rfl⟩ := h
  obtain ⟨⟨i, -, hinstructions⟩, -, -⟩ :=
    openHandler_of_unfinished hfinished hblocks block.exit kind
  exact (extends_push hinstructions).1

/-- Until the body is sealed, every call goes on behind the instructions so far. -/
theorem Step.extends (hstep : e.Step e') (hfinished : e'.finished = false) :
  e.finished = false ∧ e.Extends e'
  := by
  cases hstep with
  | emitWith op operand =>
      rw [emitWith_finished] at hfinished
      exact ⟨hfinished, emitWith_extends hfinished op operand⟩
  | defineLabel => exact ⟨hfinished, .of_eq rfl⟩
  | markLabel l =>
      obtain ⟨hinstructions, -, -, hkept⟩ := markLabel_keeps e l
      exact ⟨hkept ▸ hfinished, .of_eq hinstructions⟩
  | declareLocal t => exact ⟨hfinished, .of_eq rfl⟩
  | beginBlock => exact ⟨hfinished, .of_eq rfl⟩
  | beginCatch hok =>
      have hbegins := begins_of_beginCatch hok
      rw [hbegins.finished] at hfinished
      exact ⟨hfinished, hbegins.extends hfinished⟩
  | beginFinally hok =>
      have hbegins := begins_of_beginFinally hok
      rw [hbegins.finished] at hfinished
      exact ⟨hfinished, hbegins.extends hfinished⟩
  | endBlock hok =>
      rw [endBlock_finished hok] at hfinished
      obtain ⟨_, _, _, _, -, -, ⟨i, -, hinstructions⟩, -⟩ := endBlock_of_unfinished hfinished hok
      exact ⟨hfinished, (extends_push hinstructions).1⟩
  | sealBodyWith effectOf =>
      rw [sealBodyWith_finished] at hfinished
      cases hfinished

theorem Steps.extends (hsteps : e.Steps e') (hfinished : e'.finished = false) :
  e.finished = false ∧ e.Extends e'
  := by
  induction hsteps with
  | refl => exact ⟨hfinished, .of_eq rfl⟩
  | tail _ hstep ih =>
      obtain ⟨hfinished, hextends⟩ := hstep.extends hfinished
      obtain ⟨hfinished, hextends'⟩ := ih hfinished
      exact ⟨hfinished, hextends'.trans hextends⟩

/-- An emitter appends code without a fault, and the code is a part of every body that is sealed
after further calls. -/
structure Appends (e : Emitter) (code : List Instruction) (e' : Emitter) : Prop where
  instructions : e'.instructions.toList = e.instructions.toList ++ code
  errors : e'.errors = e.errors
  sealed : ∀ calls effectOf body,
    ((e'.run calls).sealBodyWith effectOf).1 = .ok body → body.Holds e.position code

theorem relaxInstruction_of_unlabeled (e : Emitter) (ip : Nat) {i : Instruction}
    (hi : i.operand.labels = []) :
  e.relaxInstruction ip i = i
  := by
  apply relaxInstruction_of_not_branch
  intro l hlabel
  rw [hlabel] at hi
  cases hi

/-- Sealing changes no instruction without a label. -/
theorem Appends.of_unlabeled
    (herrors : e'.errors = e.errors)
    (hinstructions : e'.instructions.toList = e.instructions.toList ++ code)
    (hcode : ∀ i ∈ code, i.operand.labels = []) :
  e.Appends code e'
  := by
  refine ⟨hinstructions, herrors, ?_⟩
  intro calls effectOf body hsealed
  obtain ⟨hfinished, -, maxStack, -, rfl⟩ := sealBodyWith_ok hsealed
  obtain ⟨-, rest, hrest⟩ := (Steps.run e' calls).extends hfinished
  let r := (e'.run calls).relaxInstruction
  have hsame : code.mapIdx (fun i => r (i + e.instructions.toList.length)) = code := by
    apply List.ext_getElem List.length_mapIdx
    intro n _ hn
    rw [List.getElem_mapIdx]
    exact relaxInstruction_of_unlabeled _ _ (hcode _ (List.getElem_mem hn))
  have hbody : ((e'.run calls).relax).instructions.toList
      = e.instructions.toList.mapIdx r ++ (code
        ++ rest.mapIdx (fun i => r (i + (e.instructions.toList ++ code).length))) := by
    change ((e'.run calls).instructions.mapIdx r).toList = _
    rw [Array.toList_mapIdx, ← hrest, hinstructions, List.mapIdx_append, List.mapIdx_append, hsame,
      List.append_assoc]
  have hposition : e.position = (e.instructions.toList.mapIdx r).length := by
    rw [List.length_mapIdx]
    rfl
  rw [MethodBody.Holds, hbody, hposition, List.drop_left]
  apply List.prefix_append

theorem Appends.nil (e : Emitter) : e.Appends [] e :=
  .of_unlabeled rfl (List.append_nil _).symm fun _ hi => absurd hi List.not_mem_nil

/-- An instruction with an operand that fits it and has no labels. -/
theorem Appends.emitWith (h : e.Appends code e') (hfinished : e'.finished = false)
    {op : Opcode} {operand : Operand} (hcode : ∀ i ∈ code, i.operand.labels = [])
    (hfits : operand.fits op.operandKind = true) (hlabels : operand.labels = []) :
  e.Appends (code ++ [⟨op, operand⟩]) (e'.emitWith op operand)
  := by
  apply Appends.of_unlabeled
  · have hfaults : e'.faults op operand = [] := by
      rw [faults, if_pos hfits, hlabels]
      rfl
    rw [Emitter.emitWith, if_neg (by rw [hfinished]; exact Bool.false_ne_true), hfaults]
    exact (List.append_nil _).trans h.errors
  · rw [(emitWith_of_unfinished hfinished op operand).1, Array.toList_push, h.instructions,
      List.append_assoc]
  · intro i hi
    rcases List.mem_append.mp hi with hi | hi
    · exact hcode i hi
    · rw [List.mem_singleton.mp hi]
      exact hlabels

/-- An opcode that takes no operand. -/
theorem Appends.emit (hfinished : e.finished = false) {op : Opcode} (hop : op.operandKind = .none) :
  e.Appends [⟨op, .none⟩] (e.emit op)
  := by
  apply (Appends.nil e).emitWith hfinished (fun _ hi => absurd hi List.not_mem_nil)
  · rw [hop]
    rfl
  · rfl

end Emitter

/-! ## Running code -/

/-- A program is at code that finds a value on top of the stack, and its limits allow the code. -/
structure Execution.Meets (e : Execution) (code : List Instruction) (v : Value) (f : Frame)
    (rest : List Value) (callers : List Frame) : Prop where
  frames : e.frames = f :: callers
  holds : f.body.Holds f.ip code
  stack : f.stack = v :: rest
  depth : rest.length < e.machine.limits.maxStackDepth
  budget : ∀ budget, e.machine.limits.stepBudget = some budget →
    e.machine.steps + code.length ≤ budget

/-- Running code to its end replaces the value on top of the stack by another one, and changes
nothing else. -/
def Turns (code : List Instruction) (v w : Value) : Prop :=
  ∀ session (e : Execution) f rest callers, e.Meets code v f rest callers →
    e.run session code.length = .running
      { machine := { e.machine with steps := e.machine.steps + code.length }
        heap := e.heap
        frames := { f with stack := w :: rest, ip := f.ip + code.length } :: callers }

namespace Turns

variable {v w : Value}

theorem nil (v : Value) : Turns [] v v := by
  rintro session ⟨machine, heap, frames⟩ f rest callers h
  rw [List.length_nil, Execution.run, ← h.stack]
  exact congrArg (Status.running ⟨machine, heap, ·⟩) h.frames

theorem conv {target : ConvTarget}
    (hconvert : Opcode.convertValue target v = .ok w) (hstack : w.toStack = w) :
  Turns [⟨.conv target, .none⟩] v w
  := by
  intro session e f rest callers h
  have hinstruction : f.body.instructions[f.ip]? = some ⟨.conv target, .none⟩ := by
    obtain ⟨tail, htail⟩ := h.holds
    rw [← Array.getElem?_toList, ← List.head?_drop, ← htail]
    rfl
  have hexecute : Surroundings.execute ⟨session, e.machine.limits.maxStackDepth⟩ e.heap f
      ⟨.conv target, .none⟩
      = .ok (.proceed { f with stack := w :: rest, ip := f.ip + 1 }, e.heap) := by
    simp only [Surroundings.execute, Surroundings.onTop, Frame.pop, h.stack, bind, Except.bind,
      hconvert, Surroundings.push, Frame.push, h.depth, if_true, hstack]
    rfl
  have hexecutes : e.Executes ⟨.conv target, .none⟩ f callers _ :=
    ⟨h.frames, hinstruction, Machine.tick_of_le h.budget⟩
  rw [List.length_singleton, Execution.run_of_running (hexecutes.step_eq hexecute)]
  rfl

/-- Code replaces a value by one value only. -/
theorem unique {code : List Instruction} {w' : Value} (h : Turns code v w) (h' : Turns code v w') :
  w = w'
  := by
  let body : MethodBody := { (default : MethodBody) with instructions := code.toArray }
  let f : Frame := { (default : Frame) with body := body, stack := [v], ip := 0 }
  let e : Execution := ⟨{}, default, [f]⟩
  have hmeets : e.Meets code v f [] [] :=
    { frames := rfl
      holds := List.prefix_refl code
      stack := rfl
      depth := Nat.zero_lt_succ _
      budget := fun _ hbudget => nomatch hbudget }
  have hrun := (h default e f [] [] hmeets).symm.trans (h' default e f [] [] hmeets)
  simp only [Status.running.injEq, Execution.mk.injEq, List.cons.injEq, Frame.mk.injEq] at hrun
  exact hrun.2.2.1.2.2.2.2.2.2.1.1

end Turns

/-! ## Integers of a form -/

namespace ValueForm

/-- The values of a form stand for integers, and for this one among them. -/
def Has : ValueForm → Int → Prop
  | char, n => 0 ≤ n ∧ n < 2 ^ 16
  | signed w, n => -(2 ^ (w.bits - 1)) ≤ n ∧ n < 2 ^ (w.bits - 1)
  | unsigned w, n => 0 ≤ n ∧ n < 2 ^ w.bits
  | _, _ => False

instance : ∀ (a : ValueForm) (n : Int), Decidable (a.Has n)
  | char, _ | signed _, _ | unsigned _, _ => inferInstanceAs (Decidable (_ ∧ _))
  | void, _ | bool, _ | float _, _ | reference, _ | generic, _ => .isFalse id

/-- The form that an integer takes on the stack.  An integer without a sign keeps its bits. -/
def onStack (n : Int) : ValueForm → StackInt
  | signed .w64 | unsigned .w64 => .wide (Int64.ofInt n)
  | _ => .narrow (Int32.ofInt n)

variable {a b : ValueForm} {n : Int}

/-- Such a form has a conversion, to the integers that it has. -/
theorem exists_intTarget (h : a.Has n) :
  ∃ t, a.intTarget? = some t ∧ t.Has n ∧ ∀ m, t.onStack m = a.onStack m
  := by
  cases a with
  | char => exact ⟨.u2, rfl, h, fun _ => rfl⟩
  | signed w | unsigned w => cases w <;> exact ⟨_, rfl, h, fun _ => rfl⟩
  | _ => exact h.elim

end ValueForm

namespace TypeRef

variable {t : TypeRef} {n : Int}

theorem isValueType_of_has (h : t.form.Has n) : t.isValueType = true := by
  cases t with
  | primitive p => rfl
  | defined handle =>
      obtain ⟨id, kind⟩ := handle
      cases kind with
      | enumType underlying => rfl
      | _ => exact h.elim
  | _ => exact h.elim

end TypeRef

/-! ## Conversions -/

namespace IntTarget

variable {s t : IntTarget} {n : Int}

theorem toInt_onStack_u4 (hn : u4.Has n) :
  (u4.onStack n).toInt = if 2 ^ 31 ≤ n then n - 2 ^ 32 else n
  := by
  obtain ⟨hnonneg, hlt⟩ := (has_iff _ _).mp hn
  simp only [high, low] at hnonneg hlt
  rw [toInt_onStack, Int.bmod_def]
  simp only [IntTarget.bits, max_self]
  omega

theorem toNat_onStack_u4 (hn : u4.Has n) : ((u4.onStack n).toNat : Int) = n := by
  have hmod := (u4.onStack n).natCast_toNat_modEq.trans (toInt_onStack_modEq u4 n)
  obtain ⟨hnonneg, hlt⟩ := hn
  have hsmall : (u4.onStack n).toNat < 2 ^ 32 := (Int32.ofInt n).toBitVec.isLt
  calc ((u4.onStack n).toNat : Int)
    _ = (u4.onStack n).toNat % 2 ^ 32 := by omega
    _ = n % 2 ^ 32 := hmod
    _ = n := Int.emod_eq_of_lt hnonneg hlt

/-- A type that is wider than the form of the integer reads the integer, unless a sign is read that
the integer does not have. -/
theorem reads_narrow (hs : s.Has n) (ht : t.Has n) (hwide : max 32 s.bits < t.bits) :
  t.reads (s.onStack n) = if s = u4 ∧ t = i8 ∧ 2 ^ 31 ≤ n then n - 2 ^ 32 else n
  := by
  by_cases hextended : s.isSigned = true ∨ s.bits < 32
  case pos =>
    have hint := toInt_onStack_of_has hs hextended
    rw [reads_of_has (hint.symm ▸ ht), hint, if_neg]
    rintro ⟨rfl, -⟩
    exact absurd hextended (by decide)
  case neg =>
    have hs4 : s = u4 := by
      cases s <;> cases t <;> simp [isSigned, IntTarget.bits] at hextended hwide ⊢
    subst hs4
    cases t with
    | i8 =>
        rw [reads, if_neg (by decide), toInt_onStack_u4 hs]
        simp only [true_and]
    | u8 =>
        rw [reads, if_pos rfl, toNat_onStack_u4 hs, if_neg]
        rintro ⟨-, ⟨⟩, -⟩
    | _ => exact absurd hwide (by decide)

/-- What a conversion reads where the integer stands in the form of another type. -/
theorem reads_onStack (hs : s.Has n) (ht : t.Has n) :
  t.reads (s.onStack n) ≡ (if s = u4 ∧ t = i8 ∧ 2 ^ 31 ≤ n then n - 2 ^ 32 else n)
    [ZMOD 2 ^ t.bits]
  := by
  by_cases hwide : max 32 s.bits < t.bits
  case pos => rw [reads_narrow hs ht hwide]
  case neg =>
    have hread := (reads_modEq t (s.onStack n)).trans
      (bits_onStack s n ▸ toInt_onStack_modEq s n)
    rw [if_neg, bits_onStack] at *
    · exact hread.of_dvd (pow_dvd_pow 2 (Nat.le_of_not_lt hwide))
    · rintro ⟨rfl, rfl, -⟩
      exact hwide (by decide)

end IntTarget

namespace ValueForm

variable {a b : ValueForm} {n : Int}

theorem intTarget?_eq_u4 : a.intTarget? = some .u4 ↔ a = .unsigned .w32 := by
  cases a with
  | signed w | unsigned w => cases w <;> simp [intTarget?]
  | _ => simp [intTarget?]

theorem intTarget?_eq_i8 : a.intTarget? = some .i8 ↔ a = .signed .w64 := by
  cases a with
  | signed w | unsigned w => cases w <;> simp [intTarget?]
  | _ => simp [intTarget?]

/-- The integer has 32 bits without a sign, which are read with a sign where they become a signed
integer of 64 bits, and then stand for another integer. -/
def Misread (a b : ValueForm) (n : Int) : Prop :=
  a = .unsigned .w32 ∧ b = .signed .w64 ∧ 2 ^ 31 ≤ n

instance : Decidable (Misread a b n) :=
  inferInstanceAs (Decidable (_ ∧ _ ∧ _))

theorem onStack_converts {s t : IntTarget}
    (ha : a.Has n) (hb : b.Has n) (hs : a.intTarget? = some s) (ht : b.intTarget? = some t) :
  t.Converts (a.onStack n) (b.onStack (if Misread a b n then n - 2 ^ 32 else n))
  := by
  obtain ⟨s', hs', hshas, hsource⟩ := exists_intTarget ha
  obtain ⟨t', ht', hthas, htarget⟩ := exists_intTarget hb
  obtain rfl : s = s' := Option.some.inj (hs.symm.trans hs')
  obtain rfl : t = t' := Option.some.inj (ht.symm.trans ht')
  have hmisread : Misread a b n ↔ s = .u4 ∧ t = .i8 ∧ 2 ^ 31 ≤ n := by
    rw [Misread, ← intTarget?_eq_u4, ← intTarget?_eq_i8, hs, ht, Option.some.injEq,
      Option.some.injEq]
  rw [← hsource, ← htarget]
  apply IntTarget.Converts.of_has
  · split
    · next h =>
      obtain ⟨-, rfl, hle⟩ := hmisread.mp h
      obtain ⟨-, hhigh⟩ := (IntTarget.has_iff _ _).mp hthas
      rw [IntTarget.has_iff]
      simp only [IntTarget.low, IntTarget.high] at hhigh ⊢
      omega
    · exact hthas
  · simp only [hmisread]
    exact IntTarget.reads_onStack hshas hthas

end ValueForm

namespace Emitter

variable {e : Emitter} {source target : TypeRef}

theorem convert_of_same (hform : source.form = target.form) (hvalue : source.isValueType = true)
    (e : Emitter) :
  e.convert source target = .ok e
  := by
  rw [convert]
  split
  · next hsource htarget => rw [hsource, htarget] at hform; cases hform
  · next => exact if_pos ⟨hform, hvalue⟩

theorem convert_of_intTarget {t : IntTarget}
    (hform : source.form ≠ target.form) (ht : target.form.intTarget? = some t) (e : Emitter) :
  e.convert source target = .ok (e.emit (.conv (.int t)))
  := by
  rw [convert]
  split
  · next htarget => rw [htarget] at ht; cases ht
  · next =>
    rw [if_neg (fun h => hform h.1), convertTo, ht]

end Emitter

/-- What the code of a conversion leaves. -/
theorem exists_conversion {source target : TypeRef} {n : Int}
    (hsource : source.form.Has n) (htarget : target.form.Has n) :
  ∃ code,
    (∀ e : Emitter, e.finished = false →
      ∃ e', e.convert source target = .ok e' ∧ e.Appends code e')
    ∧ Turns code (source.form.onStack n).value
      (target.form.onStack (if source.form.Misread target.form n then n - 2 ^ 32 else n)).value
  := by
  by_cases hform : source.form = target.form
  case pos =>
    refine ⟨[], ?_, ?_⟩
    · intro e _
      exact ⟨e, e.convert_of_same hform (TypeRef.isValueType_of_has hsource), .nil e⟩
    · rw [hform, if_neg]
      · exact .nil _
      · rintro ⟨hunsigned, hsigned, -⟩
        rw [hunsigned] at hsigned
        cases hsigned
  case neg =>
    obtain ⟨s, hs, -, -⟩ := ValueForm.exists_intTarget hsource
    obtain ⟨t, ht, -, -⟩ := ValueForm.exists_intTarget htarget
    obtain ⟨r, hr, hconverts⟩ := t.exists_converts (source.form.onStack n)
    refine ⟨[⟨.conv (.int t), .none⟩], ?_, ?_⟩
    · intro e hfinished
      exact ⟨_, e.convert_of_intTarget hform ht, .emit hfinished rfl⟩
    · rw [← hconverts.unique (ValueForm.onStack_converts hsource htarget hs ht)]
      apply Turns.conv _ r.toStack_value
      rw [IntTarget.convertValue_stackInt, hr]

theorem StackInt.value_injective : Function.Injective StackInt.value := by
  intro x y h
  cases x <;> cases y <;> cases h <;> rfl

/-- The conversion between two types emits code that takes an integer which both types have from its
form of the one type to its form of the other, unless it is misread.  Then the integer loses
`2 ^ 32`. -/
theorem conversion_of_integer (source target : TypeRef) (n : Int)
    (hsource : source.form.Has n) (htarget : target.form.Has n) :
  ∃ code,
    (∀ e : Emitter, e.finished = false →
      ∃ e', e.convert source target = .ok e' ∧ e.Appends code e')
    ∧ (Turns code (source.form.onStack n).value (target.form.onStack n).value
      ↔ ¬ source.form.Misread target.form n)
    ∧ (source.form.Misread target.form n →
      Turns code (source.form.onStack n).value (.i64 (Int64.ofInt (n - 2 ^ 32))))
  := by
  obtain ⟨code, hemits, hturns⟩ := exists_conversion hsource htarget
  by_cases hmisread : source.form.Misread target.form n
  case pos =>
    rw [if_pos hmisread] at hturns
    have hother : target.form.onStack (n - 2 ^ 32) ≠ target.form.onStack n := by
      rw [hmisread.2.1]
      intro heq
      have hleft := IntTarget.toInt_onStack_modEq .i8 (n - 2 ^ 32)
      have hright := IntTarget.toInt_onStack_modEq .i8 n
      have hmod := (congrArg StackInt.toInt heq ▸ hleft.symm).trans hright
      rw [show max 32 IntTarget.i8.bits = 64 from rfl, Int.ModEq] at hmod
      omega
    refine ⟨code, hemits, ⟨fun h => ?_, fun h => absurd hmisread h⟩, fun _ => ?_⟩
    · exact absurd (StackInt.value_injective (hturns.unique h)) hother
    · rw [hmisread.2.1] at hturns
      exact hturns
  case neg =>
    rw [if_neg hmisread] at hturns
    exact ⟨code, hemits, ⟨fun _ => hmisread, fun _ => hturns⟩, fun h => absurd h hmisread⟩

/-- The least integer that is misread as a signed one, and read rightly as one without a sign. -/
theorem conversion_of_half :
  (∃ code,
    (∀ e : Emitter, e.finished = false →
      ∃ e', e.convert (.primitive .u32) (.primitive .i64) = .ok e' ∧ e.Appends code e')
    ∧ Turns code (.i32 (-2147483648)) (.i64 (-2147483648)))
  ∧ ∃ code,
    (∀ e : Emitter, e.finished = false →
      ∃ e', e.convert (.primitive .u32) (.primitive .u64) = .ok e' ∧ e.Appends code e')
    ∧ Turns code (.i32 (-2147483648)) (.i64 2147483648)
  := by
  constructor
  · obtain ⟨code, hemits, -, hturns⟩ := conversion_of_integer
      (.primitive .u32) (.primitive .i64) (2 ^ 31) (by decide) (by decide)
    exact ⟨code, hemits, hturns (by decide)⟩
  · obtain ⟨code, hemits, hturns, -⟩ := conversion_of_integer
      (.primitive .u32) (.primitive .u64) (2 ^ 31) (by decide) (by decide)
    exact ⟨code, hemits, hturns.mpr (by decide)⟩

/-- Not every integer that both types have is taken from the one form to the other. -/
theorem not_conversion_keeps :
  ¬ ∀ (source target : TypeRef) (n : Int), source.form.Has n → target.form.Has n →
      ∀ (e e' : Emitter) code, e.finished = false → e.convert source target = .ok e' →
        e.Appends code e' →
        Turns code (source.form.onStack n).value (target.form.onStack n).value
  := by
  intro hclaim
  let e : Emitter := { method := "M" }
  have hkeeps := hclaim (.primitive .u32) (.primitive .i64) (2 ^ 31) (by decide) (by decide) e
    (e.emit (.conv (.int .i8))) _ rfl rfl (.emit rfl rfl)
  have hturns : Turns [⟨.conv (.int .i8), .none⟩] (.i32 (-2147483648)) (.i64 (-2147483648)) :=
    .conv rfl rfl
  exact absurd (Value.i64.inj (hkeeps.unique hturns)) (by decide)

end ManagedCode
