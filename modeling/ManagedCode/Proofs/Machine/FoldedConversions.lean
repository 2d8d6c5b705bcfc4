import ManagedCode.Attribute.Term
import ManagedCode.Proofs.Machine.EmittedConversions
import ManagedCode.Proofs.Machine.Transfers

/-!
# Folded conversions

A constant can be converted in two ways: the expression of an attribute folds the conversion, and
the code of a method loads the constant and converts it when it runs.  Folding extends an integer
with its sign to 64 bits and then converts it (`StackInt.widen`), and code converts the integer as
it is on the stack.  The two differ only for a negative integer of 32 bits that becomes one of 64
bits without a sign, which code reads without a sign (`StackInt.Misfolds`).
-/

namespace ManagedCode

/-! ## Code that pushes a value -/

theorem Execution.run_add {session : Session} {e e' : Execution} {n : Nat}
    (h : e.run session n = .running e') (m : Nat) :
  e.run session (n + m) = e'.run session m
  := by
  induction n generalizing e with
  | zero =>
      cases h
      rw [Nat.zero_add]
  | succ n ih =>
      rw [Nat.add_right_comm]
      cases hstep : e.step session with
      | finished machine heap result =>
          rw [run_of_finished hstep] at h
          cases h
      | running next =>
          rw [run_of_running hstep] at h ⊢
          exact ih h

/-- A program is at code, and its limits allow the code and one more value on the stack. -/
structure Execution.Arrives (e : Execution) (code : List Instruction) (f : Frame)
    (callers : List Frame) : Prop where
  frames : e.frames = f :: callers
  holds : f.body.Holds f.ip code
  depth : f.stack.length < e.machine.limits.maxStackDepth
  budget : ∀ budget, e.machine.limits.stepBudget = some budget →
    e.machine.steps + code.length ≤ budget

/-- Running code to its end pushes a value, and changes nothing else. -/
def Pushes (code : List Instruction) (v : Value) : Prop :=
  ∀ session (e : Execution) f callers, e.Arrives code f callers →
    e.run session code.length = .running
      { machine := { e.machine with steps := e.machine.steps + code.length }
        heap := e.heap
        frames := { f with stack := v :: f.stack, ip := f.ip + code.length } :: callers }

namespace Pushes

variable {code code' : List Instruction} {v w : Value}

/-- Code behind other code takes over what this has pushed. -/
theorem turns (h : Pushes code v) (h' : Turns code' v w) : Pushes (code ++ code') w := by
  intro session e f callers harrives
  have hbudget : ∀ budget, e.machine.limits.stepBudget = some budget →
      e.machine.steps + code.length + code'.length ≤ budget := by
    intro budget hb
    have := harrives.budget budget hb
    rwa [List.length_append, ← Nat.add_assoc] at this
  let f' : Frame := { f with stack := v :: f.stack, ip := f.ip + code.length }
  let e' : Execution :=
    { machine := { e.machine with steps := e.machine.steps + code.length }
      heap := e.heap
      frames := f' :: callers }
  have hfirst : e.run session code.length = .running e' := h session e f callers
    { frames := harrives.frames
      holds := (List.prefix_append code code').trans harrives.holds
      depth := harrives.depth
      budget := fun budget hb => Nat.le_trans (Nat.le_add_right _ _) (hbudget budget hb) }
  have hholds : f.body.Holds (f.ip + code.length) code' := by
    obtain ⟨rest, hrest⟩ := harrives.holds
    rw [MethodBody.Holds, ← List.drop_drop, ← hrest, List.append_assoc, List.drop_left]
    exact List.prefix_append _ _
  have hthen := h' session e' f' f.stack callers ⟨rfl, hholds, rfl, harrives.depth, hbudget⟩
  rw [List.length_append, Execution.run_add hfirst, hthen]
  simp only [e', f', Nat.add_assoc]

/-- Code pushes one value only. -/
theorem unique (h : Pushes code v) (h' : Pushes code w) : v = w := by
  let body : MethodBody := { (default : MethodBody) with instructions := code.toArray }
  let f : Frame := { (default : Frame) with body := body, ip := 0 }
  let e : Execution := ⟨{}, default, [f]⟩
  have harrives : e.Arrives code f [] :=
    { frames := rfl
      holds := List.prefix_refl code
      depth := Nat.zero_lt_succ _
      budget := fun _ hbudget => nomatch hbudget }
  have hrun := (h default e f [] harrives).symm.trans (h' default e f [] harrives)
  simp only [Status.running.injEq, Execution.mk.injEq, List.cons.injEq, Frame.mk.injEq] at hrun
  exact hrun.2.2.1.2.2.2.2.2.2.1.1

end Pushes

/-! ## Loads of constants -/

/-- An instruction that pushes a value, whatever the frame holds. -/
structure Instruction.Loads (i : Instruction) (v : Value) : Prop where
  fits : i.operand.fits i.opcode.operandKind = true
  labels : i.operand.labels = []
  execute : ∀ (s : Surroundings) (heap : Heap) (f : Frame),
    s.execute heap f i = (s.push f v).map fun f => (.proceed f, heap)

theorem Pushes.of_loads {i : Instruction} {v : Value} (h : i.Loads v) (hstack : v.toStack = v) :
  Pushes [i] v
  := by
  intro session e f callers harrives
  have hinstruction : f.body.instructions[f.ip]? = some i := by
    obtain ⟨tail, htail⟩ := harrives.holds
    rw [← Array.getElem?_toList, ← List.head?_drop, ← htail]
    rfl
  have hexecute : Surroundings.execute ⟨session, e.machine.limits.maxStackDepth⟩ e.heap f i
      = .ok (.proceed { f with stack := v :: f.stack, ip := f.ip + 1 }, e.heap) := by
    rw [h.execute, Surroundings.push, Frame.push, if_pos harrives.depth, hstack]
    rfl
  have hexecutes : e.Executes i f callers _ :=
    ⟨harrives.frames, hinstruction, Machine.tick_of_le harrives.budget⟩
  rw [List.length_singleton, Execution.run_of_running (hexecutes.step_eq hexecute)]
  rfl

namespace Emitter

/-- The shortest load of an integer of 32 bits loads it. -/
theorem exists_loadI32 (v : Int32) :
  ∃ i : Instruction, i.Loads (.i32 v)
    ∧ ∀ e : Emitter, e.loadI32 v = e.emitWith i.opcode i.operand
  := by
  have hspells := Instruction.Spells.shortest (.constant v)
  refine ⟨(Transfer.constant v).shortest, ⟨hspells.fits, hspells.labels, fun s heap f => ?_⟩,
    fun e => e.transfer_eq (.constant v)⟩
  rw [Surroundings.execute_transfer hspells.transfer, s.push_eq]
  rfl

end Emitter

namespace StackInt

/-- The integer, as a constant that code loads. -/
def constant : StackInt → Constant
  | narrow v => .i32 v
  | wide v => .i64 v

/-- The integer, as an argument of an attribute. -/
def argument : StackInt → AttributeValue
  | narrow v => .i32 v
  | wide v => .i64 v

theorem exists_load (x : StackInt) :
  ∃ i : Instruction, i.Loads x.value
    ∧ ∀ e : Emitter, e.loadConstant x.constant = e.emitWith i.opcode i.operand
  := by
  cases x with
  | narrow v => exact Emitter.exists_loadI32 v
  | wide v => exact ⟨⟨.ldcI8, .i64 v⟩, ⟨rfl, rfl, fun _ _ _ => rfl⟩, fun _ => rfl⟩

end StackInt

/-! ## Conversions of constants in code -/

/-- The code that loads an integer and converts it leaves what the conversion makes of it. -/
theorem IntTarget.Converts.exists_code
    {t : IntTarget} {x r : StackInt} {target : TypeRef} (h : t.Converts x r)
    (ht : target.form.intTarget? = some t) :
  ∃ code,
    (∀ e : Emitter, e.finished = false →
      ∃ e', (e.loadConstant x.constant).convertTo target = .ok e' ∧ e.Appends code e')
    ∧ Pushes code r.value
  := by
  obtain ⟨i, hloads, hemits⟩ := x.exists_load
  obtain ⟨r', hr', hconverts⟩ := t.exists_converts x
  obtain rfl := hconverts.unique h
  refine ⟨[i] ++ [⟨.conv (.int t), .none⟩], fun e hfinished => ?_, ?_⟩
  · have hload : e.Appends [i] (e.loadConstant x.constant) := by
      rw [hemits]
      exact (Emitter.Appends.nil e).emitWith hfinished
        (fun _ hi => absurd hi List.not_mem_nil) hloads.fits hloads.labels
    refine ⟨(e.loadConstant x.constant).emit (.conv (.int t)), ?_, ?_⟩
    · rw [Emitter.convertTo, ht]
    · apply hload.emitWith _ _ rfl rfl
      · rw [hemits, Emitter.emitWith_finished]
        exact hfinished
      · intro j hj
        rw [List.mem_singleton.mp hj]
        exact hloads.labels
  · apply (Pushes.of_loads hloads x.toStack_value).turns
    apply Turns.conv _ r'.toStack_value
    rw [IntTarget.convertValue_stackInt, hr']

/-! ## Folding -/

namespace StackInt

/-- The integer with 64 bits, extended by copies of its sign. -/
def widen : StackInt → StackInt
  | narrow v => wide v.toInt64
  | wide v => wide v

variable {x : StackInt} {a : ValueForm}

theorem toInt_widen (x : StackInt) : x.widen.toInt = x.toInt := by
  cases x with
  | narrow v => exact v.toInt_toInt64
  | wide v => rfl

theorem exists_integer (x : StackInt) :
  ∃ v : Int64, x.widen = .wide v ∧ x.argument.integer? = some v
  := by
  cases x with
  | narrow v => exact ⟨v.toInt64, rfl, rfl⟩
  | wide v => exact ⟨v, rfl, rfl⟩

end StackInt

namespace AttributeValue

variable {t : IntTarget} {w : IntWidth}

theorem toInteger?_of_integer?
    {a : AttributeValue} {v : Int64} (h : a.integer? = some v) (signed : Bool) :
  a.toInteger? signed = some v
  := by
  rw [toInteger?, h]
  rfl

/-- An integer is folded to one of a signed type by its low bits and their sign. -/
theorem exists_ofSigned (ht : (ValueForm.signed w).intTarget? = some t) (v : Int64) :
  ∃ s : StackInt, ofSigned v w = s.argument ∧ t.Converts (.wide v) s
  := by
  cases w with
  | w8 =>
      cases ht
      refine ⟨.narrow v.toInt8.toInt32, rfl, .of_bmod rfl (.inl rfl) ?_⟩
      exact (Int8.toInt_toInt32 _).trans (Int64.toInt_toInt8 v)
  | w16 =>
      cases ht
      refine ⟨.narrow v.toInt16.toInt32, rfl, .of_bmod rfl (.inl rfl) ?_⟩
      exact (Int16.toInt_toInt32 _).trans (Int64.toInt_toInt16 v)
  | w32 =>
      cases ht
      exact ⟨.narrow v.toInt32, rfl, .of_bmod rfl (.inl rfl) (Int64.toInt_toInt32 v)⟩
  | w64 =>
      cases ht
      exact ⟨.wide v, rfl, .of_bmod rfl (.inl rfl) (StackInt.toInt_bmod (.wide v)).symm⟩

/-- An integer is folded to one of a type without a sign by its low bits. -/
theorem exists_ofUnsigned (ht : (ValueForm.unsigned w).intTarget? = some t) (v : Int64) :
  ∃ s : StackInt, ofUnsigned v w = s.argument ∧ t.Converts (.wide v) s
  := by
  cases w with
  | w8 =>
      cases ht
      refine ⟨.narrow v.toUInt64.toUInt8.toUInt32.toInt32, rfl, .of_emod rfl rfl ?_⟩
      exact BitVector.toInt_zeroExtend_truncate (k := 8) (m := 32) v.toBitVec (by decide)
        (by decide)
  | w16 =>
      cases ht
      refine ⟨.narrow v.toUInt64.toUInt16.toUInt32.toInt32, rfl, .of_emod rfl rfl ?_⟩
      exact BitVector.toInt_zeroExtend_truncate (k := 16) (m := 32) v.toBitVec (by decide)
        (by decide)
  | w32 =>
      cases ht
      exact ⟨.narrow v.toInt32, rfl, .of_bmod rfl (.inr (by decide)) (Int64.toInt_toInt32 v)⟩
  | w64 =>
      cases ht
      exact ⟨.wide v, rfl, .of_bmod rfl (.inr (by decide)) (StackInt.toInt_eq_bmod (.wide v))⟩

/-- Folding converts the integer with 64 bits. -/
theorem convert_argument {target : TypeRef} (ht : target.form.intTarget? = some t) (x : StackInt) :
  ∃ s : StackInt, x.argument.convert target = .ok s.argument ∧ t.Converts x.widen s
  := by
  obtain ⟨v, hwiden, hinteger⟩ := x.exists_integer
  rw [hwiden]
  cases hform : target.form with
  | signed w =>
      obtain ⟨s, hs, hconverts⟩ := exists_ofSigned (hform ▸ ht) v
      refine ⟨s, ?_, hconverts⟩
      simp only [convert, hform, toInteger?_of_integer? hinteger, Option.map_some, hs]
  | unsigned w =>
      obtain ⟨s, hs, hconverts⟩ := exists_ofUnsigned (hform ▸ ht) v
      refine ⟨s, ?_, hconverts⟩
      simp only [convert, hform, toInteger?_of_integer? hinteger, Option.map_some, hs]
  | char =>
      rw [hform] at ht
      cases ht
      obtain ⟨s, hs, hconverts⟩ := exists_ofUnsigned (w := .w16) rfl v
      refine ⟨s, ?_, hconverts⟩
      simp only [convert, hform, hinteger, Option.map_some, hs]
  | _ =>
      rw [hform] at ht
      cases ht

end AttributeValue

/-! ## Folding and code -/

/-- A negative integer of 32 bits becomes one of 64 bits without a sign: code reads its bits without
a sign, and folding reads them with one. -/
def StackInt.Misfolds (x : StackInt) (target : ValueForm) : Prop :=
  x.bits = 32 ∧ x.toInt < 0 ∧ target = .unsigned .w64

namespace IntTarget

variable {t : IntTarget} {x : StackInt}

/-- Only the conversion to 64 bits without a sign reads an integer of 32 bits in another way than
the same integer with 64 bits. -/
theorem reads_widen (h : t = u8 → x.bits = 32 → 0 ≤ x.toInt) :
  t.reads x.widen ≡ t.reads x [ZMOD 2 ^ t.bits]
  := by
  by_cases ht : t = u8
  case pos =>
    subst ht
    cases x with
    | narrow v =>
        have hnonneg := h rfl rfl
        have hwiden := StackInt.toInt_widen (.narrow v)
        rw [reads, reads, if_pos rfl, if_pos rfl, StackInt.natCast_toNat hnonneg,
          StackInt.natCast_toNat (hwiden ▸ hnonneg), hwiden]
    | wide v => rfl
  case neg =>
    rw [reads, reads, if_neg ht, if_neg ht, StackInt.toInt_widen]

/-- What code makes of a negative integer of 32 bits. -/
theorem Converts.toInt_of_misfolds
    {r : StackInt} (h : u8.Converts x r) (hbits : x.bits = 32) (hneg : x.toInt < 0) :
  r.toInt = x.toInt + 2 ^ 32
  := by
  have hread : u8.reads x = x.toInt + 2 ^ 32 := by
    cases x with
    | narrow v =>
        have hlt := v.toBitVec.isLt
        have hsigned : (StackInt.narrow v).toInt = _ := BitVec.toInt_eq_toNat_cond v.toBitVec
        rw [reads, if_pos rfl, StackInt.toNat]
        omega
    | wide v => cases hbits
  have hlow : -(2 ^ 31) ≤ x.toInt := by
    cases x with
    | narrow v => exact v.le_toInt
    | wide v => cases hbits
  have hhas : u8.Has (x.toInt + 2 ^ 32) := by
    rw [has_iff]
    simp only [low, high]
    omega
  have hwidth : 2 ^ max 32 u8.bits = 18446744073709551616 := rfl
  rw [h.unique (.of_has hhas (by rw [hread])), toInt_onStack, hwidth]
  apply Int.bmod_eq_of_le <;> omega

/-- What folding makes of it. -/
theorem Converts.toInt_of_widen {s : StackInt} (h : u8.Converts x.widen s) : s.toInt = x.toInt := by
  have hbits : s.bits = x.widen.bits := h.bits.trans (by cases x <;> rfl)
  have hread : u8.reads x.widen ≡ x.widen.toInt [ZMOD 2 ^ u8.bits] := by
    cases x <;> exact reads_modEq u8 _
  have hsame : s = x.widen := by
    apply StackInt.ext_of_modEq hbits
    rw [h.bits]
    exact h.congruent.trans hread
  rw [hsame, StackInt.toInt_widen]

end IntTarget

namespace ValueForm

/-- The values of a form stand for integers. -/
def Integral : ValueForm → Prop
  | char | signed _ | unsigned _ => True
  | _ => False

variable {a : ValueForm}

theorem Integral.exists_intTarget (h : a.Integral) : ∃ t, a.intTarget? = some t := by
  cases a with
  | char => exact ⟨_, rfl⟩
  | signed w | unsigned w => cases w <;> exact ⟨_, rfl⟩
  | _ => exact h.elim

theorem intTarget?_eq_u8 : a.intTarget? = some .u8 ↔ a = .unsigned .w64 := by
  cases a with
  | signed w | unsigned w => cases w <;> simp [intTarget?]
  | _ => simp [intTarget?]

end ValueForm

/-- Folding the conversion of an integer gives the integer that code leaves which loads and converts
it, with as many bits, unless it is negative, has 32 bits and becomes one of 64 bits without a sign.
Then code leaves `2 ^ 32` more. -/
theorem foldedConversion_of_integer
    (session : Option Session) (x : StackInt) (target : TypeRef)
    (hintegral : target.form.Integral) :
  ∃ (code : List Instruction) (r s : StackInt),
    (∀ e : Emitter, e.finished = false →
      ∃ e', (e.loadConstant x.constant).convertTo target = .ok e' ∧ e.Appends code e')
    ∧ Pushes code r.value
    ∧ AttributeTerm.evaluate session (.convert (.constant x.argument) target) = pure s.argument
    ∧ r.bits = s.bits
    ∧ (r = s ↔ ¬ x.Misfolds target.form)
    ∧ (x.Misfolds target.form → r.toInt = s.toInt + 2 ^ 32)
  := by
  obtain ⟨t, ht⟩ := hintegral.exists_intTarget
  obtain ⟨r, -, hr⟩ := t.exists_converts x
  obtain ⟨code, hemits, hpushes⟩ := hr.exists_code ht
  obtain ⟨s, hfold, hs⟩ := AttributeValue.convert_argument ht x
  have hmisfolds : x.Misfolds target.form → r.toInt = s.toInt + 2 ^ 32 := by
    rintro ⟨hbits, hneg, htarget⟩
    obtain rfl := Option.some.inj (ht.symm.trans (ValueForm.intTarget?_eq_u8.mpr htarget))
    rw [hr.toInt_of_misfolds hbits hneg, hs.toInt_of_widen]
  refine ⟨code, r, s, hemits, hpushes, ?_, hr.bits.trans hs.bits.symm, ⟨?_, ?_⟩, hmisfolds⟩
  · simp only [AttributeTerm.evaluate, pure_bind, hfold]
    rfl
  · rintro rfl h
    have := hmisfolds h
    omega
  · intro h
    apply hr.unique
    have hread : t.reads x.widen ≡ t.reads x [ZMOD 2 ^ t.bits] := by
      apply IntTarget.reads_widen
      rintro rfl hbits
      exact Int.not_lt.mp fun hneg => h ⟨hbits, hneg, ValueForm.intTarget?_eq_u8.mp ht⟩
    exact ⟨hs.bits, hs.congruent.trans hread, hs.extended⟩

/-- The same integer of 32 and of 64 bits, as one of 64 bits without a sign. -/
theorem foldedConversion_of_minus_one :
  (∃ (code : List Instruction) (r s : StackInt),
    Pushes code r.value
    ∧ AttributeTerm.evaluate none (.convert (.constant (.i32 (-1))) (.primitive .u64))
      = pure s.argument
    ∧ r.toInt = s.toInt + 2 ^ 32)
  ∧ ∃ (code : List Instruction) (r : StackInt),
    Pushes code r.value
    ∧ AttributeTerm.evaluate none (.convert (.constant (.i64 (-1))) (.primitive .u64))
      = pure r.argument
  := by
  constructor
  · obtain ⟨code, r, s, -, hpushes, hfold, -, -, hmore⟩ :=
      foldedConversion_of_integer none (.narrow (-1)) (.primitive .u64) trivial
    exact ⟨code, r, s, hpushes, hfold, hmore ⟨rfl, by decide, rfl⟩⟩
  · obtain ⟨code, r, s, -, hpushes, hfold, -, hsame, -⟩ :=
      foldedConversion_of_integer none (.wide (-1)) (.primitive .u64) trivial
    obtain rfl := hsame.mpr fun h => absurd h.1 (by decide)
    exact ⟨code, r, hpushes, hfold⟩

/-- Folding a conversion does not always give what code leaves. -/
theorem not_folds_as_code :
  ¬ ∀ (session : Option Session) (x s : StackInt) (target : TypeRef), target.form.Integral →
      ∀ (e e' : Emitter) code, e.finished = false →
        (e.loadConstant x.constant).convertTo target = .ok e' → e.Appends code e' →
        AttributeTerm.evaluate session (.convert (.constant x.argument) target) = pure s.argument →
        Pushes code s.value
  := by
  intro hclaim
  let e : Emitter := { method := "M" }
  let load : Instruction := ⟨.ldcI4MinusOne, .none⟩
  let convert : Instruction := ⟨.conv (.int .u8), .none⟩
  have happends : e.Appends ([load] ++ [convert]) ((e.emit .ldcI4MinusOne).emit (.conv (.int .u8)))
      := by
    apply Emitter.Appends.emitWith (.emit rfl rfl) rfl _ rfl rfl
    intro i hi
    rw [List.mem_singleton.mp hi]
    rfl
  have hfolds := hclaim none (.narrow (-1)) (.wide (-1)) (.primitive .u64) trivial e _ _ rfl rfl
    happends rfl
  have hloads : load.Loads (.i32 (-1)) := ⟨rfl, rfl, fun _ _ _ => rfl⟩
  have hpushes : Pushes ([load] ++ [convert]) (.i64 4294967295) :=
    (Pushes.of_loads hloads rfl).turns (.conv rfl rfl)
  exact absurd (Value.i64.inj (hfolds.unique hpushes)) (by decide)

end ManagedCode
