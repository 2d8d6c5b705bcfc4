import ManagedCode.Machine.Instruction
import ManagedCode.Proofs.Machine.IntegerConversions
import Mathlib.Data.Int.Bitwise

/-!
# Arithmetic of integers

What the operators on integers answer, by arithmetic on the integers themselves.  An operand is read
with its sign or without it (`readWord`), a narrow operand beside a wide one as a wide one, and
`BinaryOp.Answers` says which result an operator has for two operands and for which operands it has
none.
-/

namespace ManagedCode

/-! ## Bits -/

namespace BitVector

variable {w : Nat}

/-- An integer has the bits of its word, and the sign of the word ever after. -/
theorem testBit_toInt (b : BitVec w) (i : Nat) :
  b.toInt.testBit i = if i < w then b.getLsbD i else b.msb
  := by
  cases hmsb : b.msb with
  | false =>
      rw [BitVec.toInt_eq_toNat_of_msb hmsb]
      change b.getLsbD i = _
      split
      · rfl
      · next hi => exact BitVec.getLsbD_of_ge b i (Nat.le_of_not_lt hi)
  | true =>
      have hnegative : b.toInt = Int.negSucc (~~~b).toNat := by
        rw [BitVec.toInt_eq_msb_cond, hmsb, if_pos rfl, BitVec.toNat_not]
        have := b.isLt
        omega
      have hcomplement : Nat.testBit (~~~b).toNat i = (~~~b).getLsbD i := rfl
      rw [hnegative, Int.testBit, hcomplement, BitVec.getLsbD_not]
      by_cases hi : i < w <;> simp [hi]

/-- A natural number and a negative one differ in a bit. -/
theorem not_testBit_natCast_negSucc (m n : Nat) :
  ¬ ∀ i, (m : Int).testBit i = (Int.negSucc n).testBit i
  := by
  intro h
  have hbit : m.testBit (max m n) = !n.testBit (max m n) := h (max m n)
  have hm : m < 2 ^ max m n := lt_of_le_of_lt (le_max_left m n) Nat.lt_two_pow_self
  have hn : n < 2 ^ max m n := lt_of_le_of_lt (le_max_right m n) Nat.lt_two_pow_self
  rw [Nat.testBit_lt_two_pow hm, Nat.testBit_lt_two_pow hn] at hbit
  cases hbit

theorem int_eq_of_testBit {m n : Int} (h : ∀ i, m.testBit i = n.testBit i) : m = n := by
  cases m with
  | ofNat m =>
      cases n with
      | ofNat n => exact congrArg Int.ofNat (Nat.eq_of_testBit_eq h)
      | negSucc n => exact absurd h (not_testBit_natCast_negSucc m n)
  | negSucc m =>
      cases n with
      | ofNat n => exact absurd (fun i => (h i).symm) (not_testBit_natCast_negSucc n m)
      | negSucc n =>
          exact congrArg Int.negSucc (Nat.eq_of_testBit_eq fun i => Bool.not_inj (h i))

theorem toInt_and (a b : BitVec w) : (a &&& b).toInt = a.toInt.land b.toInt := by
  apply int_eq_of_testBit
  intro i
  rw [Int.testBit_land, testBit_toInt, testBit_toInt, testBit_toInt, BitVec.getLsbD_and,
    BitVec.msb_and]
  split <;> rfl

theorem toInt_or (a b : BitVec w) : (a ||| b).toInt = a.toInt.lor b.toInt := by
  apply int_eq_of_testBit
  intro i
  rw [Int.testBit_lor, testBit_toInt, testBit_toInt, testBit_toInt, BitVec.getLsbD_or,
    BitVec.msb_or]
  split <;> rfl

theorem toInt_xor (a b : BitVec w) : (a ^^^ b).toInt = a.toInt.xor b.toInt := by
  apply int_eq_of_testBit
  intro i
  rw [Int.testBit_lxor, testBit_toInt, testBit_toInt, testBit_toInt, BitVec.getLsbD_xor,
    BitVec.msb_xor]
  split <;> rfl

theorem toInt_not (hw : 0 < w) (b : BitVec w) : (~~~b).toInt = -b.toInt - 1 := by
  have hsum : (~~~b).toNat + b.toNat + 1 = 2 ^ w := by
    have := b.isLt
    rw [BitVec.toNat_not]
    omega
  rw [BitVec.toInt_eq_msb_cond, BitVec.toInt_eq_msb_cond, BitVec.msb_not, decide_eq_true hw,
    Bool.true_and]
  cases b.msb
  · rw [Bool.not_false, if_pos rfl, if_neg Bool.false_ne_true]
    omega
  · rw [Bool.not_true, if_neg Bool.false_ne_true, if_pos rfl]
    omega

theorem toInt_emod (b : BitVec w) : b.toInt % 2 ^ w = b.toNat := by
  have hlt : (b.toNat : Int) < 2 ^ w := by exact_mod_cast b.isLt
  rw [← natCast_toNat_modEq b, Int.emod_eq_of_lt (Int.natCast_nonneg _) hlt]

end BitVector

/-! ## Exact results -/

/-- The integer that a word of `w` bits is read as, if it is `n` with its sign. -/
def readWord (unsigned : Bool) (w : Nat) (n : Int) : Int :=
  if unsigned then n % 2 ^ w else n

/-- A word of `w` bits can be read as an integer. -/
def WordHas (unsigned : Bool) (w : Nat) (n : Int) : Prop :=
  if unsigned then 0 ≤ n ∧ n < 2 ^ w else -(2 ^ (w - 1)) ≤ n ∧ n < 2 ^ (w - 1)

namespace BinaryOp

/-- The operator reads words without their signs. -/
def isUnsigned : BinaryOp → Bool
  | divUn | remUn | addOvfUn | subOvfUn | mulOvfUn => true
  | _ => false

def divides : BinaryOp → Bool
  | div | divUn | rem | remUn => true
  | _ => false

/-- The result for two integers.  A division goes toward zero. -/
def exact (x y : Int) : BinaryOp → Int
  | add | addOvf | addOvfUn => x + y
  | sub | subOvf | subOvfUn => x - y
  | mul | mulOvf | mulOvfUn => x * y
  | div | divUn => x.tdiv y
  | rem | remUn => x.tmod y
  | and => x.land y
  | or => x.lor y
  | xor => x.xor y

/-- The result that is left of the exact one in a word: sums, differences and products that are not
checked go around. -/
def result (w : Nat) (x y : Int) (op : BinaryOp) : Int :=
  match op with
  | add | sub | mul => (op.exact x y).bmod (2 ^ w)
  | _ => op.exact x y

/-- The operands have no result: the exact one is checked and does not fit, or they are the least
integer and minus one, which cannot be divided. -/
def Overflows (w : Nat) (x y : Int) (op : BinaryOp) : Prop :=
  match op with
  | div | rem => x = -(2 ^ (w - 1)) ∧ y = -1
  | addOvf | subOvf | mulOvf | addOvfUn | subOvfUn | mulOvfUn =>
    ¬ WordHas op.isUnsigned w (op.exact x y)
  | _ => False

/-- What an operator answers for two words, which are `x` and `y` with their signs: a fault, or the
word that is read as the result. -/
inductive Answers (op : BinaryOp) (w : Nat) (x y : Int) : Except Fault Int → Prop
  | divideByZero (hdivides : op.divides = true) (hzero : y = 0) :
      Answers op w x y (.error .divideByZero)
  | overflow (hnonzero : op.divides = true → y ≠ 0)
      (hoverflows : op.Overflows w (readWord op.isUnsigned w x) (readWord op.isUnsigned w y)) :
      Answers op w x y (.error (.overflow op.mnemonic))
  | result {r : Int} (hnonzero : op.divides = true → y ≠ 0)
      (hfits : ¬ op.Overflows w (readWord op.isUnsigned w x) (readWord op.isUnsigned w y))
      (hresult : readWord op.isUnsigned w r
        = op.result w (readWord op.isUnsigned w x) (readWord op.isUnsigned w y)) :
      Answers op w x y (.ok r)

end BinaryOp

namespace Arithmetic

variable {w : Nat} {x y r : BitVec w} {op : BinaryOp}

theorem readWord_unsigned (b : BitVec w) : readWord true w b.toInt = b.toNat :=
  BitVector.toInt_emod b

theorem unlessOverflow_answers {overflows : Bool}
    (hnonzero : op.divides = true → y.toInt ≠ 0)
    (hoverflows : overflows = true
      ↔ op.Overflows w (readWord op.isUnsigned w x.toInt) (readWord op.isUnsigned w y.toInt))
    (hresult : overflows = false → readWord op.isUnsigned w r.toInt
      = op.result w (readWord op.isUnsigned w x.toInt) (readWord op.isUnsigned w y.toInt)) :
  op.Answers w x.toInt y.toInt ((unlessOverflow overflows op r).map BitVec.toInt)
  := by
  cases overflows with
  | true => exact .overflow hnonzero (hoverflows.mp rfl)
  | false =>
      exact .result hnonzero (fun h => Bool.false_ne_true (hoverflows.mpr h)) (hresult rfl)

theorem ifZero_answers {answer : Except Fault (BitVec w)}
    (hdivides : op.divides = true)
    (hanswer : y.toInt ≠ 0 → op.Answers w x.toInt y.toInt (answer.map BitVec.toInt)) :
  op.Answers w x.toInt y.toInt
    ((if y = 0#w then .error .divideByZero else answer : Except Fault _).map BitVec.toInt)
  := by
  have hzero : y = 0#w ↔ y.toInt = 0 := by
    rw [← BitVec.toInt_inj, BitVec.toInt_zero]
  split
  · next h => exact .divideByZero hdivides (hzero.mp h)
  · next h => exact hanswer (mt hzero.mpr h)

/-- A signed overflow. -/
theorem signed_overflow_iff (n : Int) :
  (decide (n ≥ 2 ^ (w - 1)) || decide (n < -2 ^ (w - 1))) = true ↔ ¬ WordHas false w n
  := by
  simp only [WordHas, Bool.false_eq_true, if_false, Bool.or_eq_true, decide_eq_true_eq]
  omega

theorem unsigned_overflow_iff (n : Nat) :
  decide (n ≥ 2 ^ w) = true ↔ ¬ WordHas true w n
  := by
  have hcast : (n : Int) < 2 ^ w ↔ n < 2 ^ w := by exact_mod_cast Iff.rfl
  simp only [WordHas, if_true, decide_eq_true_eq, hcast]
  omega

/-- Only the least integer divided by minus one has a quotient that is too large. -/
theorem sdivOverflow_iff (hw : 0 < w) (x y : BitVec w) :
  BitVec.sdivOverflow x y = true ↔ x.toInt = -(2 ^ (w - 1)) ∧ y.toInt = -1
  := by
  have hleast : (BitVec.intMin w).toInt = -(2 ^ (w - 1)) := by
    rw [BitVec.toInt_intMin_of_pos hw]
  have hone : (BitVec.allOnes w).toInt = -1 := by
    rw [BitVec.toInt_allOnes, if_pos hw]
  rw [BitVec.sdivOverflow_eq, ← hleast, ← hone, BitVec.toInt_inj, BitVec.toInt_inj]
  simp [hw]

theorem toInt_sdiv_of_not_sdivOverflow (hw : 0 < w) (x y : BitVec w)
    (h : BitVec.sdivOverflow x y = false) :
  (x.sdiv y).toInt = x.toInt.tdiv y.toInt
  := by
  apply BitVec.toInt_sdiv_of_ne_or_ne
  rw [← not_and_or]
  rintro ⟨hx, hy⟩
  rw [BitVec.neg_one_eq_allOnes] at hy
  rw [BitVec.sdivOverflow_eq, hx, hy] at h
  simp [hw] at h

theorem onWords_answers (hw : 0 < w) (op : BinaryOp) (x y : BitVec w) :
  op.Answers w x.toInt y.toInt ((onWords op x y).map BitVec.toInt)
  := by
  cases op with
  | add => exact .result nofun id (BitVec.toInt_add x y)
  | sub => exact .result nofun id BitVec.toInt_sub
  | mul => exact .result nofun id (BitVec.toInt_mul x y)
  | and => exact .result nofun id (BitVector.toInt_and x y)
  | or => exact .result nofun id (BitVector.toInt_or x y)
  | xor => exact .result nofun id (BitVector.toInt_xor x y)
  | div =>
      refine ifZero_answers rfl fun hnonzero => unlessOverflow_answers (fun _ => hnonzero) ?_ ?_
      · exact sdivOverflow_iff hw x y
      · exact toInt_sdiv_of_not_sdivOverflow hw x y
  | rem =>
      refine ifZero_answers rfl fun hnonzero => unlessOverflow_answers (fun _ => hnonzero) ?_ ?_
      · exact sdivOverflow_iff hw x y
      · exact fun _ => BitVec.toInt_srem x y
  | divUn =>
      refine ifZero_answers rfl fun hnonzero => .result (fun _ => hnonzero) id ?_
      change readWord true w (x.udiv y).toInt
        = (readWord true w x.toInt).tdiv (readWord true w y.toInt)
      simp only [readWord_unsigned]
      rfl
  | remUn =>
      refine ifZero_answers rfl fun hnonzero => .result (fun _ => hnonzero) id ?_
      change readWord true w (x.umod y).toInt
        = (readWord true w x.toInt).tmod (readWord true w y.toInt)
      simp only [readWord_unsigned]
      rfl
  | addOvf =>
      exact unlessOverflow_answers nofun (signed_overflow_iff _)
        fun h => BitVec.toInt_add_of_not_saddOverflow (Bool.not_eq_true _ ▸ h)
  | subOvf =>
      exact unlessOverflow_answers nofun (signed_overflow_iff _)
        fun h => BitVec.toInt_sub_of_not_ssubOverflow (Bool.not_eq_true _ ▸ h)
  | mulOvf =>
      exact unlessOverflow_answers nofun (signed_overflow_iff _)
        fun h => BitVec.toInt_mul_of_not_smulOverflow (Bool.not_eq_true _ ▸ h)
  | addOvfUn =>
      refine unlessOverflow_answers nofun ?_ fun h => ?_
      · change _ ↔ ¬ WordHas true w (readWord true w x.toInt + readWord true w y.toInt)
        rw [readWord_unsigned, readWord_unsigned]
        exact_mod_cast unsigned_overflow_iff (w := w) (x.toNat + y.toNat)
      · change readWord true w (x + y).toInt = readWord true w x.toInt + readWord true w y.toInt
        rw [readWord_unsigned, readWord_unsigned, readWord_unsigned]
        exact_mod_cast BitVec.toNat_add_of_not_uaddOverflow (Bool.not_eq_true _ ▸ h)
  | subOvfUn =>
      refine unlessOverflow_answers nofun ?_ fun h => ?_
      · change decide (x.toNat < y.toNat) = true
          ↔ ¬ WordHas true w (readWord true w x.toInt - readWord true w y.toInt)
        have hx : (x.toNat : Int) < 2 ^ w := by exact_mod_cast x.isLt
        simp only [readWord_unsigned, WordHas, if_true, decide_eq_true_eq]
        omega
      · change readWord true w (x - y).toInt = readWord true w x.toInt - readWord true w y.toInt
        have hle : ¬ x.toNat < y.toNat := of_decide_eq_false h
        rw [readWord_unsigned, readWord_unsigned, readWord_unsigned,
          BitVec.toNat_sub_of_not_usubOverflow (Bool.not_eq_true _ ▸ h)]
        omega
  | mulOvfUn =>
      refine unlessOverflow_answers nofun ?_ fun h => ?_
      · change _ ↔ ¬ WordHas true w (readWord true w x.toInt * readWord true w y.toInt)
        rw [readWord_unsigned, readWord_unsigned]
        exact_mod_cast unsigned_overflow_iff (w := w) (x.toNat * y.toNat)
      · change readWord true w (x * y).toInt = readWord true w x.toInt * readWord true w y.toInt
        rw [readWord_unsigned, readWord_unsigned, readWord_unsigned]
        exact_mod_cast BitVec.toNat_mul_of_not_umulOverflow (Bool.not_eq_true _ ▸ h)

/-! ## Shifts -/

end Arithmetic

namespace ShiftOp

/-- The shift fills with zeros. -/
def isUnsigned : ShiftOp → Bool
  | shrUn => true
  | _ => false

/-- The integer that is left of `x` in a word of `w` bits, shifted by `n` places. -/
def result (w : Nat) (x : Int) (n : Nat) : ShiftOp → Int
  | shl => (x * 2 ^ n).bmod (2 ^ w)
  | shr | shrUn => x / 2 ^ n

end ShiftOp

namespace Arithmetic

theorem shiftWord_result (op : ShiftOp) (x : BitVec w) (amount : Int) :
  readWord op.isUnsigned w (shiftWord op x amount).toInt
    = op.result w (readWord op.isUnsigned w x.toInt) (amount % w).toNat
  := by
  cases op with
  | shl =>
      change (x <<< (amount % w).toNat).toInt = (x.toInt * 2 ^ (amount % w).toNat).bmod (2 ^ w)
      rw [BitVec.toInt_shiftLeft, Nat.shiftLeft_eq, BitVec.toInt_eq_toNat_bmod,
        Int.bmod_mul_bmod]
      push_cast
      rfl
  | shr =>
      change (x.sshiftRight (amount % w).toNat).toInt = x.toInt / 2 ^ (amount % w).toNat
      rw [BitVec.toInt_sshiftRight, Int.shiftRight_eq_div_pow]
      norm_cast
  | shrUn =>
      change readWord true w (x >>> (amount % w).toNat).toInt
        = readWord true w x.toInt / 2 ^ (amount % w).toNat
      rw [readWord_unsigned, readWord_unsigned, BitVec.toNat_ushiftRight, Nat.shiftRight_eq_div_pow]
      norm_cast

end Arithmetic

/-! ## Integers of the stack -/

namespace StackInt

/-- The number of bits in which two integers are combined. -/
def commonBits (x y : StackInt) : Nat :=
  max x.bits y.bits

/-- What an operator on words leaves, as integers of the stack. -/
theorem exists_answer {w : Nat} (ofWord : BitVec w → StackInt)
    (hint : ∀ b, (ofWord b).toInt = b.toInt) (hbits : ∀ b, (ofWord b).bits = w) (hw : 0 < w)
    (op : BinaryOp) (a b : BitVec w) :
  ∃ answer : Except Fault StackInt,
    (Arithmetic.onWords op a b).map (value ∘ ofWord) = answer.map value
    ∧ op.Answers w a.toInt b.toInt (answer.map toInt)
    ∧ ∀ r, answer = .ok r → r.bits = w
  := by
  have hanswers := Arithmetic.onWords_answers hw op a b
  cases h : Arithmetic.onWords op a b with
  | error error =>
      rw [h] at hanswers
      exact ⟨.error error, rfl, hanswers, nofun⟩
  | ok r =>
      rw [h] at hanswers
      refine ⟨.ok (ofWord r), rfl, ?_, ?_⟩
      · change op.Answers w _ _ (.ok (ofWord r).toInt)
        rw [hint]
        exact hanswers
      · rintro _ ⟨⟩
        exact hbits r

theorem binary_answers (op : BinaryOp) (x y : StackInt) :
  ∃ answer : Except Fault StackInt,
    Arithmetic.binary op x.value y.value = answer.map value
    ∧ op.Answers (x.commonBits y) x.toInt y.toInt (answer.map toInt)
    ∧ ∀ r, answer = .ok r → r.bits = x.commonBits y
  := by
  have hnarrow := exists_answer (narrow ∘ Int32.ofBitVec) (fun b => rfl) (fun _ => rfl)
    (by decide) op
  have hwide := exists_answer (wide ∘ Int64.ofBitVec) (fun b => rfl) (fun _ => rfl)
    (by decide) op
  cases x with
  | narrow x =>
      cases y with
      | narrow y => exact hnarrow x.toBitVec y.toBitVec
      | wide y =>
          have := hwide x.toInt64.toBitVec y.toBitVec
          rw [Int64.toInt_toBitVec, x.toInt_toInt64] at this
          exact this
  | wide x =>
      cases y with
      | narrow y =>
          have := hwide x.toBitVec y.toInt64.toBitVec
          rw [Int64.toInt_toBitVec, Int64.toInt_toBitVec, y.toInt_toInt64] at this
          exact this
      | wide y => exact hwide x.toBitVec y.toBitVec

/-- A shift keeps the width of the integer that it shifts. -/
theorem shift_result (op : ShiftOp) (x amount : StackInt) :
  ∃ r : StackInt, Arithmetic.shift op x.value amount.value = .ok r.value
    ∧ r.bits = x.bits
    ∧ readWord op.isUnsigned x.bits r.toInt
      = op.result x.bits (readWord op.isUnsigned x.bits x.toInt)
          (amount.toInt % x.bits).toNat
  := by
  obtain ⟨n, hn, hint⟩ : ∃ n, amount.value.asI64? = some n ∧ n.toInt = amount.toInt := by
    cases amount with
    | narrow n => exact ⟨n.toInt64, rfl, n.toInt_toInt64⟩
    | wide n => exact ⟨n, rfl, rfl⟩
  rw [Arithmetic.shift, hn, ← hint]
  cases x with
  | narrow x =>
      exact ⟨.narrow (Int32.ofBitVec (Arithmetic.shiftWord op x.toBitVec n.toInt)), rfl, rfl,
        Arithmetic.shiftWord_result op x.toBitVec n.toInt⟩
  | wide x =>
      exact ⟨.wide (Int64.ofBitVec (Arithmetic.shiftWord op x.toBitVec n.toInt)), rfl, rfl,
        Arithmetic.shiftWord_result op x.toBitVec n.toInt⟩

theorem negate_result (x : StackInt) :
  ∃ r : StackInt, Arithmetic.negate x.value = .ok r.value
    ∧ r.bits = x.bits ∧ r.toInt = (-x.toInt).bmod (2 ^ x.bits)
  := by
  cases x with
  | narrow x => exact ⟨.narrow (-x), rfl, rfl, Int32.toInt_neg x⟩
  | wide x => exact ⟨.wide (-x), rfl, rfl, Int64.toInt_neg x⟩

/-- The complement of an integer, in any number of bits. -/
theorem complement_result (x : StackInt) :
  ∃ r : StackInt, Arithmetic.complement x.value = .ok r.value
    ∧ r.bits = x.bits ∧ r.toInt = -x.toInt - 1
  := by
  cases x with
  | narrow x => exact ⟨.narrow (~~~x), rfl, rfl, BitVector.toInt_not (by decide) x.toBitVec⟩
  | wide x => exact ⟨.wide (~~~x), rfl, rfl, BitVector.toInt_not (by decide) x.toBitVec⟩

end StackInt

/-! ## Instructions -/

/-- The frame goes on with an integer in place of the values that an instruction took. -/
def Frame.leaves (f : Frame) (heap : Heap) (rest : List Value) (r : StackInt) : Request × Heap :=
  (.proceed { f with stack := r.value :: rest, ip := f.ip + 1 }, heap)

namespace Surroundings

variable {s : Surroundings} {f : Frame} {rest : List Value}

theorem push_of_lt (hlimit : rest.length < s.stackLimit) (f : Frame) (v : Value) :
  s.push { f with stack := rest } v
    = .ok { f with stack := v.toStack :: rest, ip := f.ip + 1 }
  := by
  rw [push, Frame.push, if_pos hlimit]
  rfl

theorem onTop_of_stack {a : Value} (hstack : f.stack = a :: rest)
    (op : Value → Except Fault Value) :
  s.onTop f op = op a >>= s.push { f with stack := rest }
  := by
  rw [onTop, Frame.pop, hstack]
  rfl

theorem onTopTwo_of_stack {a b : Value} (hstack : f.stack = b :: a :: rest)
    (op : Value → Value → Except Fault Value) :
  s.onTopTwo f op = op a b >>= s.push { f with stack := rest }
  := by
  rw [onTopTwo, Frame.pop, hstack]
  rfl

theorem push_stackInts (hlimit : rest.length < s.stackLimit) (heap : Heap) (f : Frame)
    (answer : Except Fault StackInt) :
  (answer.map StackInt.value >>= s.push { f with stack := rest }).map
      (fun g => (Request.proceed g, heap))
    = answer.map (f.leaves heap rest)
  := by
  cases answer with
  | error error => rfl
  | ok r =>
      change (s.push { f with stack := rest } r.value).map _ = _
      rw [push_of_lt hlimit, r.toStack_value]
      rfl

/-- Every instruction on integers of the stack leaves the integer that exact arithmetic gives, in
the wider form of the two operands, or fails where the operation has no result; a shift keeps the
form of the integer that it shifts. -/
theorem execute_stackInts (s : Surroundings) (heap : Heap) (f : Frame) (operand : Operand)
    {rest : List Value} (hlimit : rest.length < s.stackLimit) :
  (∀ (op : BinaryOp) (x y : StackInt), f.stack = y.value :: x.value :: rest →
    ∃ answer : Except Fault StackInt,
      s.execute heap f ⟨.binary op, operand⟩ = answer.map (f.leaves heap rest)
      ∧ op.Answers (x.commonBits y) x.toInt y.toInt (answer.map StackInt.toInt)
      ∧ ∀ r, answer = .ok r → r.bits = x.commonBits y)
  ∧ (∀ (op : ShiftOp) (x amount : StackInt), f.stack = amount.value :: x.value :: rest →
    ∃ r : StackInt,
      s.execute heap f ⟨.shift op, operand⟩ = .ok (f.leaves heap rest r)
      ∧ r.bits = x.bits
      ∧ readWord op.isUnsigned x.bits r.toInt
        = op.result x.bits (readWord op.isUnsigned x.bits x.toInt)
            (amount.toInt % x.bits).toNat)
  ∧ ∀ x : StackInt, f.stack = x.value :: rest →
    (∃ r : StackInt,
      s.execute heap f ⟨.neg, operand⟩ = .ok (f.leaves heap rest r)
      ∧ r.bits = x.bits ∧ r.toInt = (-x.toInt).bmod (2 ^ x.bits))
    ∧ ∃ r : StackInt,
      s.execute heap f ⟨.not, operand⟩ = .ok (f.leaves heap rest r)
      ∧ r.bits = x.bits ∧ r.toInt = -x.toInt - 1
  := by
  have hpush := push_stackInts hlimit heap f
  refine ⟨?_, ?_, ?_⟩
  · intro op x y hstack
    obtain ⟨answer, hbinary, hanswers⟩ := StackInt.binary_answers op x y
    refine ⟨answer, ?_, hanswers⟩
    rw [← hpush, ← hbinary]
    exact congrArg (Except.map _) (onTopTwo_of_stack hstack _)
  · intro op x amount hstack
    obtain ⟨r, hshift, hresult⟩ := StackInt.shift_result op x amount
    refine ⟨r, ?_, hresult⟩
    change (s.onTopTwo f _).map _ = _
    rw [onTopTwo_of_stack hstack, hshift]
    exact hpush (.ok r)
  · intro x hstack
    constructor
    · obtain ⟨r, hnegate, hresult⟩ := x.negate_result
      refine ⟨r, ?_, hresult⟩
      change (s.onTop f _).map _ = _
      rw [onTop_of_stack hstack, hnegate]
      exact hpush (.ok r)
    · obtain ⟨r, hcomplement, hresult⟩ := x.complement_result
      refine ⟨r, ?_, hresult⟩
      change (s.onTop f _).map _ = _
      rw [onTop_of_stack hstack, hcomplement]
      exact hpush (.ok r)

/-- The least integer of 32 bits divided by minus one. -/
theorem execute_div_least :
  ([] : List Value).length < (⟨default, 2⟩ : Surroundings).stackLimit
  ∧ execute ⟨default, 2⟩ default
      { (default : Frame) with stack := [.i32 (-1), .i32 (-2147483648)] } ⟨.binary .div, .none⟩
    = .error (.overflow "div")
  := by
  refine ⟨by decide, ?_⟩
  obtain ⟨answer, hexecute, hanswers, -⟩ := (execute_stackInts ⟨default, 2⟩ default
    { (default : Frame) with stack := [.i32 (-1), .i32 (-2147483648)] } .none (by decide)).1
    .div (.narrow (-2147483648)) (.narrow (-1)) rfl
  rw [hexecute]
  cases answer with
  | error error =>
      cases hanswers with
      | divideByZero _ hzero => exact absurd hzero (by decide)
      | overflow => rfl
  | ok r =>
      cases hanswers with
      | result _ hfits _ => exact absurd ⟨rfl, rfl⟩ hfits

end Surroundings

end ManagedCode
