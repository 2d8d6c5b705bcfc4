import ManagedCode.Emitter.Instructions
import ManagedCode.Proofs.Emitter.Blocks
import ManagedCode.Proofs.Machine.IntegerArithmetic

/-!
# Branches that compare

A branch that compares two numbers is taken as the comparison instruction says that
`Condition.comparison` names: the equality and the strict inequalities if that instruction leaves
one, the other conditions if it leaves zero.  Floats may be in no order, and then the negation of a
strict inequality is the unordered form of the opposite one.  On integers a branch is taken exactly
if the relation holds of the integers themselves, read with or without their signs
(`Comparison.Holds`).
-/

namespace ManagedCode

/-! ## Conditions and comparisons -/

/-- The value is a float of either width. -/
def Value.isFloat : Value → Bool
  | .f32 _ | .f64 _ => true
  | _ => false

/-- The condition that a comparison instruction tests. -/
def CompareOp.condition : CompareOp → Condition
  | ceq => .equal
  | cgt => .ordered .gt
  | cgtUn => .unordered .gt
  | clt => .ordered .lt
  | cltUn => .unordered .lt

namespace Condition

/-- The comparison instruction that decides a condition. -/
def comparison (floats : Bool) : Condition → CompareOp
  | equal | notEqual => .ceq
  | ordered .gt => .cgt
  | ordered .lt => .clt
  | unordered .gt => .cgtUn
  | unordered .lt => .cltUn
  | ordered .ge => if floats then .cltUn else .clt
  | ordered .le => if floats then .cgtUn else .cgt
  | unordered .ge => if floats then .clt else .cltUn
  | unordered .le => if floats then .cgt else .cgtUn

/-- The answer of the comparison for which the condition holds. -/
def affirms : Condition → Bool
  | notEqual | ordered .ge | ordered .le | unordered .ge | unordered .le => false
  | _ => true

/-- Whether a condition holds of two values that are the same or not, and in the order `o`. -/
def verdict (same : Bool) (o : Option Ordering) : Condition → Bool
  | equal => same
  | notEqual => !same
  | ordered r => o.any r.holds
  | unordered r => o.all r.holds

end Condition

namespace Inequality

/-- Numbers are not in a relation if they are in the opposite one or in no order. -/
theorem any_holds_ge (o : Option Ordering) : o.any ge.holds = !o.all lt.holds := by
  rcases o with _ | _ | _ | _ <;> rfl

theorem any_holds_le (o : Option Ordering) : o.any le.holds = !o.all gt.holds := by
  rcases o with _ | _ | _ | _ <;> rfl

theorem all_holds_ge (o : Option Ordering) : o.all ge.holds = !o.any lt.holds := by
  rcases o with _ | _ | _ | _ <;> rfl

theorem all_holds_le (o : Option Ordering) : o.all le.holds = !o.any gt.holds := by
  rcases o with _ | _ | _ | _ <;> rfl

end Inequality

namespace Condition

/-- Only floats may be in no order, and then the unordered form of a relation holds as well. -/
theorem verdict_negated {floats : Bool} {o : Option Ordering} (hsome : floats = false → o.isSome)
    (same : Bool) {r : Inequality} {op opUn : CompareOp} (hop : op.condition = .ordered r)
    (hopUn : opUn.condition = .unordered r) :
  (!o.all r.holds) = ((if floats then opUn else op).condition.verdict same o == false)
  ∧ (!o.any r.holds) = ((if floats then op else opUn).condition.verdict same o == false)
  := by
  have hfalse (b : Bool) : (!b) = (b == false) := by cases b <;> rfl
  cases floats with
  | true =>
      rw [if_pos rfl, if_pos rfl, hop, hopUn]
      exact ⟨hfalse _, hfalse _⟩
  | false =>
      obtain ⟨x, rfl⟩ := Option.isSome_iff_exists.mp (hsome rfl)
      rw [if_neg Bool.false_ne_true, if_neg Bool.false_ne_true, hop, hopUn]
      exact ⟨hfalse (r.holds x), hfalse (r.holds x)⟩

/-- A condition is the answer of its comparison, or the opposite of that answer. -/
theorem verdict_comparison {floats : Bool} {o : Option Ordering}
    (hsome : floats = false → o.isSome) (same : Bool) (c : Condition) :
  c.verdict same o = ((c.comparison floats).condition.verdict same o == c.affirms)
  := by
  have htrue (b : Bool) : b = (b == true) := by cases b <;> rfl
  cases c with
  | equal => exact htrue same
  | notEqual => cases same <;> rfl
  | ordered r =>
      cases r with
      | gt | lt => exact htrue _
      | ge => exact (Inequality.any_holds_ge o).trans (verdict_negated hsome same rfl rfl).1
      | le => exact (Inequality.any_holds_le o).trans (verdict_negated hsome same rfl rfl).1
  | unordered r =>
      cases r with
      | gt | lt => exact htrue _
      | ge => exact (Inequality.all_holds_ge o).trans (verdict_negated hsome same rfl rfl).2
      | le => exact (Inequality.all_holds_le o).trans (verdict_negated hsome same rfl rfl).2

end Condition

/-! ## Numbers -/

namespace Condition

/-- Whether a condition compares integers without their signs. -/
def isUnsigned : Condition → Bool
  | unordered _ => true
  | _ => false

/-- Whether a condition is an inequality. -/
def asksOrder : Condition → Bool
  | ordered _ | unordered _ => true
  | _ => false

end Condition

namespace Arithmetic

/-- Whether two values are brought to a common form does not depend on the instruction that asks,
and the fault depends on it in the mnemonic only. -/
theorem numberPair_cases (a b : Value) :
  (∃ pair, ∀ op, numberPair op a b = .ok pair)
  ∨ ∃ text, ∀ op, numberPair op a b = .error (.typeError ("'" ++ op ++ text))
  := by
  have hmixed (h : ∀ op, numberPair op a b = .error (.typeError
      ("'" ++ op ++ "' cannot combine " ++ a.kindName ++ " and " ++ b.kindName))) :
      ∃ text, ∀ op, numberPair op a b = .error (.typeError ("'" ++ op ++ text)) := by
    refine ⟨"' cannot combine " ++ a.kindName ++ " and " ++ b.kindName, fun op => ?_⟩
    rw [h]
    simp only [String.append_assoc]
  cases a with
  | i32 x | i64 x =>
      cases b with
      | i32 y | i64 y => exact .inl ⟨_, fun _ => rfl⟩
      | _ => exact .inr (hmixed fun _ => rfl)
  | f32 x | f64 x =>
      cases b with
      | f32 y | f64 y => exact .inl ⟨_, fun _ => rfl⟩
      | _ => exact .inr (hmixed fun _ => rfl)
  | _ => exact .inr (hmixed fun _ => rfl)

/-- Two numbers are in an order, integers with their signs or without them; or one is a float and
the other is not. -/
inductive Ordered (a b : Value) : Prop
  | compared (o : Bool → Option Ordering)
      (horder : ∀ op unsigned, order op unsigned a b = .ok (o unsigned))
      (hsome : a.isFloat = false → ∀ unsigned, (o unsigned).isSome)
      (hsame : a.isFloat = true → o true = o false)
  | mixed (text : String)
      (horder : ∀ op unsigned, order op unsigned a b = .error (.typeError ("'" ++ op ++ text)))

theorem ordered_of_isNumber {a b : Value} (ha : a.isNumber = true) (hb : b.isNumber = true) :
  Ordered a b
  := by
  have hwords {w : Nat} (x y : BitVec w) (hfloat : a.isFloat = false)
      (h : ∀ op unsigned, order op unsigned a b = .ok (some (compareWords unsigned x y))) :
      Ordered a b :=
    .compared (some <| compareWords · x y) h (fun _ _ => rfl) fun hfloat' =>
      absurd (hfloat.symm.trans hfloat') Bool.false_ne_true
  have hfloats (o : Option Ordering) (hfloat : a.isFloat = true)
      (h : ∀ op unsigned, order op unsigned a b = .ok o) :
      Ordered a b :=
    .compared (fun _ => o) h (fun hfloat' => absurd (hfloat'.symm.trans hfloat) Bool.false_ne_true)
      fun _ => rfl
  have hmixed (h : ∀ pair, numberPair "" a b ≠ .ok pair) : Ordered a b := by
    obtain ⟨pair, hpair⟩ | ⟨text, hpair⟩ := numberPair_cases a b
    · exact absurd (hpair "") (h pair)
    · refine .mixed text fun op unsigned => ?_
      rw [order, hpair]
      rfl
  cases a with
  | i32 x | i64 x =>
      cases b with
      | i32 y | i64 y => exact hwords _ _ rfl fun _ _ => rfl
      | f32 y | f64 y => exact hmixed nofun
      | _ => cases hb
  | f32 x | f64 x =>
      cases b with
      | f32 y | f64 y => exact hfloats _ rfl fun _ _ => rfl
      | i32 y | i64 y => exact hmixed nofun
      | _ => cases hb
  | _ => cases ha

end Arithmetic

variable {a b : Value}

/-- A comparison of numbers tests its condition. -/
theorem CompareOp.eval_of_isNumber (ha : a.isNumber = true) (hb : b.isNumber = true)
    (op : CompareOp) :
  op.eval a b = op.condition.eval op.mnemonic a b
  := by
  cases op with
  | cgtUn =>
      rw [eval, ha, hb]
      rfl
  | _ => rfl

namespace Condition

theorem eval_of_order {o : Bool → Option Ordering}
    (horder : ∀ op unsigned, Arithmetic.order op unsigned a b = .ok (o unsigned))
    (c : Condition) (op : String) :
  c.eval op a b = .ok (c.verdict (Arithmetic.equal a b) (o c.isUnsigned))
  := by
  cases c with
  | equal | notEqual => rfl
  | ordered r | unordered r =>
      rw [eval, horder]
      rfl

theorem eval_of_mixed {fault : String → Fault}
    (horder : ∀ op unsigned, Arithmetic.order op unsigned a b = .error (fault op))
    {c : Condition} (hasks : c.asksOrder = true) (op : String) :
  c.eval op a b = .error (fault op)
  := by
  cases c with
  | equal | notEqual => cases hasks
  | ordered r | unordered r =>
      rw [eval, horder]
      rfl

/-- Any two values are the same or not. -/
theorem eval_of_not_asksOrder {c : Condition} (hasks : c.asksOrder = false) (op : String) :
  c.eval op a b = .ok (c.verdict (Arithmetic.equal a b) (some .eq))
  := by
  cases c with
  | equal | notEqual => rfl
  | ordered r | unordered r => cases hasks

theorem comparison_asksOrder (floats : Bool) (c : Condition) :
  (c.comparison floats).condition.asksOrder = c.asksOrder
  := by
  rcases c with _ | _ | r | r
  · rfl
  · rfl
  · cases r <;> cases floats <;> rfl
  · cases r <;> cases floats <;> rfl

theorem comparison_isUnsigned (c : Condition) :
  (c.comparison false).condition.isUnsigned = c.isUnsigned
  := by
  rcases c with _ | _ | r | r
  · rfl
  · rfl
  · cases r <;> rfl
  · cases r <;> rfl

/-- A condition on two numbers is decided by a comparison of them, or neither of the two is. -/
theorem eval_comparison (ha : a.isNumber = true) (hb : b.isNumber = true) (c : Condition) :
  (∃ holds : Bool, (c.comparison a.isFloat).eval a b = .ok holds
    ∧ ∀ op, c.eval op a b = .ok (holds == c.affirms))
  ∨ ∃ text, (c.comparison a.isFloat).eval a b
      = .error (.typeError ("'" ++ (c.comparison a.isFloat).mnemonic ++ text))
    ∧ ∀ op, c.eval op a b = .error (.typeError ("'" ++ op ++ text))
  := by
  rw [CompareOp.eval_of_isNumber ha hb]
  cases Arithmetic.ordered_of_isNumber ha hb with
  | compared o horder hsome hsame =>
      left
      have hunsigned : o (c.comparison a.isFloat).condition.isUnsigned = o c.isUnsigned := by
        cases hfloat : a.isFloat with
        | false => rw [comparison_isUnsigned]
        | true =>
            have hall (unsigned : Bool) : o unsigned = o false := by
              cases unsigned with
              | true => exact hsame hfloat
              | false => rfl
            rw [hall, hall c.isUnsigned]
      refine ⟨_, eval_of_order horder _ _, fun op => ?_⟩
      rw [eval_of_order horder, hunsigned, ← verdict_comparison fun h => hsome h _]
  | mixed text horder =>
      cases hasks : c.asksOrder with
      | true =>
          right
          have hcomparison := (comparison_asksOrder a.isFloat c).trans hasks
          exact ⟨text, eval_of_mixed horder hcomparison _, eval_of_mixed horder hasks⟩
      | false =>
          left
          have hcomparison := (comparison_asksOrder a.isFloat c).trans hasks
          refine ⟨_, eval_of_not_asksOrder hcomparison _, fun op => ?_⟩
          rw [eval_of_not_asksOrder hasks, ← verdict_comparison fun _ => rfl]

end Condition

/-! ## Integers -/

namespace Comparison

/-- The relation of two integers. -/
def Holds (x y : Int) : Comparison → Prop
  | eq => x = y
  | ne => x ≠ y
  | lt => x < y
  | le => x ≤ y
  | gt => x > y
  | ge => x ≥ y

instance (x y : Int) : (c : Comparison) → Decidable (c.Holds x y)
  | eq => inferInstanceAs (Decidable (x = y))
  | ne => inferInstanceAs (Decidable (x ≠ y))
  | lt => inferInstanceAs (Decidable (x < y))
  | le => inferInstanceAs (Decidable (x ≤ y))
  | gt => inferInstanceAs (Decidable (x > y))
  | ge => inferInstanceAs (Decidable (x ≥ y))

/-- The condition of a relation asks for it. -/
theorem verdict_condition (unsigned : Bool) (x y : Int) (c : Comparison) :
  (c.condition unsigned).verdict (decide (x = y)) (some (compare x y)) = decide (c.Holds x y)
  := by
  have hlt : (compare x y == .lt) = decide (x < y) := by
    rw [Bool.eq_iff_iff, beq_iff_eq, compare_lt_iff_lt, decide_eq_true_eq]
  have hgt : (compare x y == .gt) = decide (x > y) := by
    rw [Bool.eq_iff_iff, beq_iff_eq, compare_gt_iff_gt, decide_eq_true_eq]
  have hle : (compare x y != .gt) = decide (x ≤ y) := by
    rw [bne, hgt, ← decide_not, decide_eq_decide]
    exact Int.not_lt
  have hge : (compare x y != .lt) = decide (x ≥ y) := by
    rw [bne, hlt, ← decide_not, decide_eq_decide]
    exact Int.not_lt
  cases c with
  | eq => rfl
  | ne => exact (decide_not).symm
  | lt => cases unsigned <;> exact hlt
  | le => cases unsigned <;> exact hle
  | gt => cases unsigned <;> exact hgt
  | ge => cases unsigned <;> exact hge

/-- Without an inequality it is the same how integers are read. -/
theorem verdict_isUnsigned (unsigned same : Bool) (o : Bool → Option Ordering) (c : Comparison) :
  (c.condition unsigned).verdict same (o (c.condition unsigned).isUnsigned)
    = (c.condition unsigned).verdict same (o unsigned)
  := by
  cases c <;> cases unsigned <;> rfl

end Comparison

namespace Arithmetic

variable {w : Nat}

theorem compareWords_eq (unsigned : Bool) (x y : BitVec w) :
  compareWords unsigned x y = compare (readWord unsigned w x.toInt) (readWord unsigned w y.toInt)
  := by
  cases unsigned with
  | false => rfl
  | true =>
      have hcast : StrictMono (Nat.cast : Nat → Int) := Nat.strictMono_cast
      rw [readWord_unsigned, readWord_unsigned, ← cmp_eq_compare, hcast.cmp_map_eq, cmp_eq_compare]
      rfl

theorem readWord_inj (unsigned : Bool) (x y : BitVec w) :
  readWord unsigned w x.toInt = readWord unsigned w y.toInt ↔ x = y
  := by
  cases unsigned with
  | false => exact BitVec.toInt_inj
  | true =>
      rw [readWord_unsigned, readWord_unsigned, Nat.cast_inj, BitVec.toNat_inj]

end Arithmetic

namespace StackInt

/-- Two integers are compared as words of their common width. -/
theorem exists_words (x y : StackInt) :
  ∃ a b : BitVec (x.commonBits y), a.toInt = x.toInt ∧ b.toInt = y.toInt
    ∧ (∀ op unsigned, Arithmetic.order op unsigned x.value y.value
        = .ok (some (Arithmetic.compareWords unsigned a b)))
    ∧ Arithmetic.equal x.value y.value = decide (a = b)
  := by
  have hnarrow (x y : Int32) : (x == y) = decide (x.toBitVec = y.toBitVec) := by
    rw [Bool.eq_iff_iff, beq_iff_eq, decide_eq_true_eq, Int32.toBitVec_inj]
  have hwide (x y : Int64) : (x == y) = decide (x.toBitVec = y.toBitVec) := by
    rw [Bool.eq_iff_iff, beq_iff_eq, decide_eq_true_eq, Int64.toBitVec_inj]
  cases x with
  | narrow x =>
      cases y with
      | narrow y => exact ⟨x.toBitVec, y.toBitVec, rfl, rfl, fun _ _ => rfl, hnarrow x y⟩
      | wide y =>
          exact ⟨x.toInt64.toBitVec, y.toBitVec, x.toInt_toInt64, rfl, fun _ _ => rfl, hwide _ y⟩
  | wide x =>
      cases y with
      | narrow y =>
          exact ⟨x.toBitVec, y.toInt64.toBitVec, rfl, y.toInt_toInt64, fun _ _ => rfl, hwide x _⟩
      | wide y => exact ⟨x.toBitVec, y.toBitVec, rfl, rfl, fun _ _ => rfl, hwide x y⟩

/-- A relation is asked of the integers as they are read in their common width. -/
theorem eval_condition (unsigned : Bool) (c : Comparison) (op : String) (x y : StackInt) :
  (c.condition unsigned).eval op x.value y.value
    = .ok (decide (c.Holds (readWord unsigned (x.commonBits y) x.toInt)
        (readWord unsigned (x.commonBits y) y.toInt)))
  := by
  obtain ⟨a, b, ha, hb, horder, hequal⟩ := exists_words x y
  rw [Condition.eval_of_order horder, hequal, ← ha, ← hb, ← Comparison.verdict_condition unsigned,
    Comparison.verdict_isUnsigned unsigned _ (fun u => some (Arithmetic.compareWords u a b)),
    Arithmetic.compareWords_eq]
  simp only [Arithmetic.readWord_inj]

end StackInt

/-! ## Instructions -/

/-- The frame goes on behind a branch that took the values above `rest`: at its label if the branch
is taken, and else at the next instruction. -/
def Frame.branches (f : Frame) (heap : Heap) (rest : List Value) (l : Label) (taken : Bool) :
    Except Fault (Request × Heap) :=
  if taken then (f.target l).map fun ip => (.proceed { f with stack := rest, ip := ip }, heap)
  else .ok (.proceed { f with stack := rest, ip := f.ip + 1 }, heap)

namespace Surroundings

variable {s : Surroundings} {f : Frame} {rest : List Value}

theorem execute_compare (hlimit : rest.length < s.stackLimit) (hstack : f.stack = b :: a :: rest)
    (heap : Heap) (op : CompareOp) (operand : Operand) :
  s.execute heap f ⟨.compare op, operand⟩
    = (op.eval a b).map fun holds => f.leaves heap rest (.narrow (if holds then 1 else 0))
  := by
  change (s.onTopTwo f _).map _ = _
  rw [onTopTwo_of_stack hstack]
  cases op.eval a b with
  | error error => rfl
  | ok holds =>
      change (s.push { f with stack := rest } (.i32 (if holds then 1 else 0))).map _ = _
      rw [push_of_lt hlimit]
      rfl

theorem execute_condition (hstack : f.stack = b :: a :: rest) (heap : Heap) (c : Condition)
    (w : Width) (l : Label) :
  s.execute heap f ⟨.branch (.compare c) w, .label l⟩
    = c.eval (Opcode.branch (.compare c) w).mnemonic a b >>= f.branches heap rest l
  := by
  have htest : testBranch f (.compare c) (Opcode.branch (.compare c) w).mnemonic
      = c.eval (Opcode.branch (.compare c) w).mnemonic a b >>= fun taken =>
        .ok (taken, { f with stack := rest }) := by
    rw [testBranch, Frame.pop, hstack]
    rfl
  change (testBranch f _ _ >>= _ : Except Fault Frame).map _ = _
  rw [htest]
  cases c.eval (Opcode.branch (.compare c) w).mnemonic a b with
  | error error => rfl
  | ok taken =>
      cases taken with
      | false => rfl
      | true =>
          change (f.target l >>= _ : Except Fault Frame).map _ = (f.target l).map _
          cases f.target l <;> rfl

/-- A branch on a condition is taken as the comparison says that decides the condition, or the two
fail alike.  What `Emitter.branchIf` emits is taken on integers exactly if the relation holds of
them, read in their common width. -/
theorem execute_branchIf (s : Surroundings) (heap : Heap) (l : Label) (rest : List Value) :
  (∀ (f : Frame) (c : Condition) (w : Width) (operand : Operand) (a b : Value),
    a.isNumber = true → b.isNumber = true → f.stack = b :: a :: rest → rest.length < s.stackLimit →
    (∃ holds : Bool,
      s.execute heap f ⟨.compare (c.comparison a.isFloat), operand⟩
        = .ok (f.leaves heap rest (.narrow (if holds then 1 else 0)))
      ∧ s.execute heap f ⟨.branch (.compare c) w, .label l⟩
        = f.branches heap rest l (holds == c.affirms))
    ∨ ∃ text,
      s.execute heap f ⟨.compare (c.comparison a.isFloat), operand⟩
        = .error (.typeError ("'" ++ (c.comparison a.isFloat).mnemonic ++ text))
      ∧ s.execute heap f ⟨.branch (.compare c) w, .label l⟩
        = .error (.typeError ("'" ++ (Opcode.branch (.compare c) w).mnemonic ++ text)))
  ∧ ∀ (e : Emitter) (unsigned : Bool) (c : Comparison), e.finished = false →
    ∃ test,
      (e.branchIf unsigned c l).instructions
        = e.instructions.push ⟨.branch test .long, .label l⟩
      ∧ ∀ (f : Frame) (w : Width) (x y : StackInt), f.stack = y.value :: x.value :: rest →
        s.execute heap f ⟨.branch test w, .label l⟩
          = f.branches heap rest l (decide (c.Holds (readWord unsigned (x.commonBits y) x.toInt)
              (readWord unsigned (x.commonBits y) y.toInt)))
  := by
  constructor
  · intro f c w operand a b ha hb hstack hlimit
    rw [execute_compare hlimit hstack, execute_condition hstack]
    obtain ⟨holds, hcomparison, hcondition⟩ | ⟨text, hcomparison, hcondition⟩ :=
      c.eval_comparison ha hb
    · rw [hcomparison, hcondition]
      exact .inl ⟨holds, rfl, rfl⟩
    · rw [hcomparison, hcondition]
      exact .inr ⟨text, rfl, rfl⟩
  · intro e unsigned c hfinished
    refine ⟨.compare (c.condition unsigned), (e.emitWith_of_unfinished hfinished _ _).1, ?_⟩
    intro f w x y hstack
    rw [execute_condition hstack, StackInt.eval_condition]
    rfl

/-- Minus one is less than one, and without its sign it is not. -/
theorem execute_branchIf_minus_one :
  (default : Emitter).finished = false
  ∧ execute ⟨default, 2⟩ default { (default : Frame) with stack := [.i32 1, .i32 (-1)] }
      ⟨.compare .clt, .none⟩
    = .ok (Frame.leaves default default [] (.narrow 1))
  ∧ execute ⟨default, 2⟩ default { (default : Frame) with stack := [.i32 1, .i32 (-1)] }
      ⟨.branch (.compare (.ordered .ge)) .short, .label ⟨0⟩⟩
    = .ok (.proceed { (default : Frame) with ip := 1 }, default)
  ∧ ∃ test,
    ((default : Emitter).branchIf true .lt ⟨0⟩).instructions = #[⟨.branch test .long, .label ⟨0⟩⟩]
    ∧ execute ⟨default, 2⟩ default { (default : Frame) with stack := [.i32 1, .i32 (-1)] }
        ⟨.branch test .long, .label ⟨0⟩⟩
      = .ok (.proceed { (default : Frame) with ip := 1 }, default)
  := by
  obtain ⟨hcompares, hemits⟩ := execute_branchIf ⟨default, 2⟩ default ⟨0⟩ []
  obtain ⟨test, hpush, htaken⟩ := hemits default true .lt rfl
  have hless : execute ⟨default, 2⟩ default { (default : Frame) with stack := [.i32 1, .i32 (-1)] }
      ⟨.compare .clt, .none⟩ = .ok (Frame.leaves default default [] (.narrow 1)) := rfl
  refine ⟨rfl, hless, ?_, test, hpush, htaken _ .long (.narrow (-1)) (.narrow 1) rfl⟩
  obtain ⟨holds, hcomparison, hbranch⟩ | ⟨text, hcomparison, -⟩ :=
    hcompares { (default : Frame) with stack := [.i32 1, .i32 (-1)] } (.ordered .ge) .short .none
      (.i32 (-1)) (.i32 1) rfl rfl rfl (by decide)
  · cases holds with
    | true => exact hbranch
    | false =>
        have hleaves := Except.ok.inj (hless.symm.trans hcomparison)
        simp [Frame.leaves, StackInt.value] at hleaves
  · cases hless.symm.trans hcomparison

end Surroundings

end ManagedCode
