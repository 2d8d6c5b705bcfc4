import ManagedCode.Code.Opcode
import ManagedCode.Machine.Fault
import ManagedCode.Number.Binary

/-!
# Arithmetic and comparison

The operators on numbers.  Integers are words of 32 or 64 bits, and one rule on
words of any width serves both; a mixed pair is widened to 64 bits.  Floats of the
two widths are widened likewise, and a pair of narrow ones is computed in double
precision and rounded once.

A comparison of floats may have no answer; the unordered forms then hold.
-/

namespace ManagedCode

/-- A word as a value of its width. -/
def Value.ofWord32 (x : BitVec 32) : Value :=
  .i32 (Int32.ofBitVec x)

/-- A word of 64 bits on the stack. -/
def Value.ofWord64 (x : BitVec 64) : Value :=
  .i64 (Int64.ofBitVec x)

namespace Arithmetic

/-- Two operands brought to a common form. -/
inductive NumberPair where
  | words32 (x y : BitVec 32)
  | words64 (x y : BitVec 64)
  | singles (x y : Float32)
  | doubles (x y : Float)

/-- Two numbers of one form. -/
def numberPair (op : String) : Value → Value → Except Fault NumberPair
  | .i32 x, .i32 y => .ok (.words32 x.toBitVec y.toBitVec)
  | .i32 x, .i64 y => .ok (.words64 x.toInt64.toBitVec y.toBitVec)
  | .i64 x, .i32 y => .ok (.words64 x.toBitVec y.toInt64.toBitVec)
  | .i64 x, .i64 y => .ok (.words64 x.toBitVec y.toBitVec)
  | .f32 x, .f32 y => .ok (.singles x y)
  | .f32 x, .f64 y => .ok (.doubles x.toFloat y)
  | .f64 x, .f32 y => .ok (.doubles x y.toFloat)
  | .f64 x, .f64 y => .ok (.doubles x y)
  | a, b =>
    .error (.typeError ("'" ++ op ++ "' cannot combine " ++ a.kindName ++ " and " ++ b.kindName))

/-- The result, unless it does not fit. -/
def unlessOverflow (overflows : Bool) (op : BinaryOp) (result : BitVec w) :
    Except Fault (BitVec w) :=
  if overflows then .error (.overflow op.mnemonic) else .ok result

/-- The operators on words.  Division goes toward zero, and the least word divided
by minus one does not fit. -/
def onWords (op : BinaryOp) (x y : BitVec w) : Except Fault (BitVec w) :=
  match op with
  | .add => .ok (x + y)
  | .sub => .ok (x - y)
  | .mul => .ok (x * y)
  | .div =>
    if y = 0#w then .error .divideByZero
    else unlessOverflow (BitVec.sdivOverflow x y) op (x.sdiv y)
  | .rem =>
    if y = 0#w then .error .divideByZero
    else unlessOverflow (BitVec.sdivOverflow x y) op (x.srem y)
  | .divUn => if y = 0#w then .error .divideByZero else .ok (x.udiv y)
  | .remUn => if y = 0#w then .error .divideByZero else .ok (x.umod y)
  | .and => .ok (x &&& y)
  | .or => .ok (x ||| y)
  | .xor => .ok (x ^^^ y)
  | .addOvf => unlessOverflow (BitVec.saddOverflow x y) op (x + y)
  | .subOvf => unlessOverflow (BitVec.ssubOverflow x y) op (x - y)
  | .mulOvf => unlessOverflow (BitVec.smulOverflow x y) op (x * y)
  | .addOvfUn => unlessOverflow (BitVec.uaddOverflow x y) op (x + y)
  | .subOvfUn => unlessOverflow (BitVec.usubOverflow x y) op (x - y)
  | .mulOvfUn => unlessOverflow (BitVec.umulOverflow x y) op (x * y)

/-- What an operation makes of two floats. -/
def onFloats (op : BinaryOp) (x y : Float) : Except Fault Float :=
  match op with
  | .add => .ok (x + y)
  | .sub => .ok (x - y)
  | .mul => .ok (x * y)
  | .div => .ok (x / y)
  | .rem => .ok (floatRemainder x y)
  | _ => .error (.typeError ("'" ++ op.mnemonic ++ "' does not apply to floats"))

/-- What an operation makes of two numbers. -/
def binary (op : BinaryOp) (a b : Value) : Except Fault Value := do
  match ← numberPair op.mnemonic a b with
  | .words32 x y => return .ofWord32 (← onWords op x y)
  | .words64 x y => return .ofWord64 (← onWords op x y)
  | .singles x y => return .f32 (← onFloats op x.toFloat y.toFloat).toFloat32
  | .doubles x y => return .f64 (← onFloats op x y)

/-- Shifts a word by an amount that is taken modulo its width. -/
def shiftWord (op : ShiftOp) (x : BitVec w) (amount : Int) : BitVec w :=
  let n := (amount % w).toNat
  match op with
  | .shl => x <<< n
  | .shr => x.sshiftRight n
  | .shrUn => x >>> n

/-- A number shifted by an amount. -/
def shift (op : ShiftOp) (value amount : Value) : Except Fault Value :=
  match amount.asI64? with
  | none =>
    .error (.typeError ("shift amount must be an integer, found " ++ amount.kindName))
  | some n =>
    match value with
    | .i32 x => .ok (.ofWord32 (shiftWord op x.toBitVec n.toInt))
    | .i64 x => .ok (.ofWord64 (shiftWord op x.toBitVec n.toInt))
    | v => .error (.typeError ("'" ++ op.mnemonic ++ "' cannot shift " ++ v.kindName))

/-- A number with the other sign. -/
def negate : Value → Except Fault Value
  | .i32 x => .ok (.i32 (-x))
  | .i64 x => .ok (.i64 (-x))
  | .f32 x => .ok (.f32 (-x))
  | .f64 x => .ok (.f64 (-x))
  | v => .error (.typeError ("cannot negate " ++ v.kindName))

/-- An integer with every bit flipped. -/
def complement : Value → Except Fault Value
  | .i32 x => .ok (.i32 (~~~x))
  | .i64 x => .ok (.i64 (~~~x))
  | v => .error (.typeError ("cannot complement " ++ v.kindName))

/-- Passes a finite float on. -/
def checkFinite (v : Value) : Except Fault Value :=
  match v.asF64? with
  | some x => if x.isFinite then .ok v else .error (.overflow "ckfinite")
  | none => .error (.typeError ("ckfinite on " ++ v.kindName))

/-- The order of two words, with or without their signs. -/
def compareWords (unsigned : Bool) (x y : BitVec w) : Ordering :=
  if unsigned then compare x.toNat y.toNat else compare x.toInt y.toInt

/-- The order of two floats, unless one is a NaN. -/
def compareFloats (x y : Float) : Option Ordering :=
  if x < y then some .lt
  else if y < x then some .gt
  else if x == y then some .eq
  else none

/-- The order of two singles, if neither is a NaN. -/
def compareSingles (x y : Float32) : Option Ordering :=
  if x < y then some .lt
  else if y < x then some .gt
  else if x == y then some .eq
  else none

/-- The order of two numbers. -/
def order (op : String) (unsigned : Bool) (a b : Value) : Except Fault (Option Ordering) := do
  match ← numberPair op a b with
  | .words32 x y => return some (compareWords unsigned x y)
  | .words64 x y => return some (compareWords unsigned x y)
  | .singles x y => return compareSingles x y
  | .doubles x y => return compareFloats x y

/-- Whether two values are equal: integers and floats by value, across widths. -/
def equal (a b : Value) : Bool :=
  match a, b with
  | .i32 x, .i64 y => x.toInt64 == y
  | .i64 x, .i32 y => x == y.toInt64
  | .f32 x, .f64 y => x.toFloat == y
  | .f64 x, .f32 y => x == y.toFloat
  | a, b => a.same b

end Arithmetic

namespace Inequality

/-- Whether a relation holds of two numbers in the given order. -/
def holds : Inequality → Ordering → Bool
  | ge, o => o != .lt
  | gt, o => o == .gt
  | le, o => o != .gt
  | lt, o => o == .lt

end Inequality

namespace Condition

/-- Whether a condition holds of two values; `op` is the mnemonic of the instruction
that asks. -/
def eval (c : Condition) (op : String) (a b : Value) : Except Fault Bool :=
  match c with
  | equal => .ok (Arithmetic.equal a b)
  | notEqual => .ok (!Arithmetic.equal a b)
  | ordered r => return (← Arithmetic.order op false a b).any r.holds
  | unordered r => return (← Arithmetic.order op true a b).all r.holds

end Condition

namespace Value

/-- Whether a value is a number on the stack. -/
def isNumber : Value → Bool
  | i32 _ | i64 _ | f32 _ | f64 _ => true
  | _ => false

/-- Whether a value counts as true in a branch. -/
def isTrue : Value → Bool
  | null => false
  | bool b => b
  | i32 v => v != 0
  | i64 v => v != 0
  | f32 v => v != 0.0
  | f64 v => v != 0.0
  | _ => true

end Value

namespace CompareOp

/-- The comparison that an instruction makes.  The unsigned greater-than also asks
whether a reference is not null. -/
def eval (op : CompareOp) (a b : Value) : Except Fault Bool :=
  match op with
  | ceq => .ok (Arithmetic.equal a b)
  | cgt => Condition.eval (.ordered .gt) op.mnemonic a b
  | clt => Condition.eval (.ordered .lt) op.mnemonic a b
  | cltUn => Condition.eval (.unordered .lt) op.mnemonic a b
  | cgtUn =>
    if a.isNumber && b.isNumber then Condition.eval (.unordered .gt) op.mnemonic a b
    else .ok (!a.isNull && b.isNull)

end CompareOp

end ManagedCode
