import ManagedCode.Machine.Conversion
import Mathlib.Data.Int.ModEq
import Mathlib.Tactic.NormNum

/-!
# Conversions of integers

The integers of the evaluation stack have 32 or 64 bits (`StackInt`).  A conversion to an integer
type reads one of them with its sign, except that `conv.u8` reads 32 bits without one.  The
unchecked conversion keeps the low bits and extends them to the width that the type has on the
stack (`IntTarget.Converts`).  The checked one succeeds exactly if the type has the integer, and
then with the same value (`IntTarget.converts_stackInt`).
-/

namespace ManagedCode

/-! ## Low bits -/

namespace BitVector

variable {w k m : Nat}

/-- With and without its sign, a word is the same up to its range. -/
theorem natCast_toNat_modEq (b : BitVec w) : b.toNat ≡ b.toInt [ZMOD 2 ^ w] := by
  rw [BitVec.toInt_eq_toNat_bmod]
  exact_mod_cast (Int.bmod_emod (m := 2 ^ w)).symm

/-- The low bits of a word with their sign. -/
theorem toInt_truncate (b : BitVec w) (hk : k ≤ w) :
  (b.truncate k).toInt = b.toInt.bmod (2 ^ k)
  := by
  rw [BitVec.truncate, BitVec.toInt_setWidth, BitVec.toInt_eq_toNat_bmod,
    Int.bmod_bmod_of_dvd (Nat.pow_dvd_pow 2 hk)]

/-- The low bits, extended by copies of their sign. -/
theorem toInt_signExtend_truncate (b : BitVec w) (hk : k ≤ w) (hm : k ≤ m) :
  ((b.truncate k).signExtend m).toInt = b.toInt.bmod (2 ^ k)
  := by
  rw [BitVec.toInt_signExtend_of_le hm, toInt_truncate b hk]

/-- The low bits, extended by zeros. -/
theorem toInt_zeroExtend_truncate (b : BitVec w) (hk : k ≤ w) (hm : k < m) :
  ((b.truncate k).zeroExtend m).toInt = b.toInt % 2 ^ k
  := by
  have hlow : ((b.truncate k).zeroExtend m).toNat = b.toNat % 2 ^ k := by
    rw [BitVec.zeroExtend, BitVec.toNat_setWidth_of_le (Nat.le_of_lt hm), BitVec.truncate,
      BitVec.toNat_setWidth]
  have hsmall : 2 * (b.toNat % 2 ^ k) < 2 ^ m :=
    calc 2 * (b.toNat % 2 ^ k)
      _ < 2 * 2 ^ k := by
        have := Nat.mod_lt b.toNat (Nat.two_pow_pos k)
        omega
      _ = 2 ^ (k + 1) := (Nat.pow_succ').symm
      _ ≤ 2 ^ m := Nat.pow_le_pow_right Nat.two_pos hm
  rw [BitVec.toInt_eq_toNat_of_lt (hlow ▸ hsmall), hlow]
  push_cast
  exact (natCast_toNat_modEq b).of_dvd (pow_dvd_pow 2 hk)

end BitVector

/-! ## Integers of the stack -/

/-- An integer of the evaluation stack. -/
inductive StackInt where
  | narrow (v : Int32)
  | wide (v : Int64)
deriving DecidableEq

namespace StackInt

/-- An integer as a value of the stack. -/
def value : StackInt → Value
  | narrow v => .i32 v
  | wide v => .i64 v

/-- The width of an integer on the stack. -/
def bits : StackInt → Nat
  | narrow _ => 32
  | wide _ => 64

/-- The integer, read with its sign. -/
def toInt : StackInt → Int
  | narrow v => v.toInt
  | wide v => v.toInt

/-- The integer, read without a sign. -/
def toNat : StackInt → Nat
  | narrow v => v.toBitVec.toNat
  | wide v => v.toBitVec.toNat

variable {x y : StackInt}

/-- An integer is what its bits are with their sign. -/
theorem toInt_eq_bmod (x : StackInt) : x.toInt = (x.toNat : Int).bmod (2 ^ x.bits) := by
  cases x with
  | narrow v => exact BitVec.toInt_eq_toNat_bmod v.toBitVec
  | wide v => exact BitVec.toInt_eq_toNat_bmod v.toBitVec

/-- No integer on the stack is narrower than 32 bits. -/
theorem le_bits (x : StackInt) : 32 ≤ x.bits := by
  cases x <;> simp only [bits] <;> decide

/-- An integer lies in the range of its width. -/
theorem toInt_bmod (x : StackInt) : x.toInt.bmod (2 ^ x.bits) = x.toInt := by
  rw [toInt_eq_bmod, Int.bmod_bmod]

/-- The low bits are the same, read with a sign or without one. -/
theorem toInt_bmod_of_le (x : StackInt) {k : Nat} (hk : k ≤ x.bits) :
  x.toInt.bmod (2 ^ k) = (x.toNat : Int).bmod (2 ^ k)
  := by
  rw [toInt_eq_bmod, Int.bmod_bmod_of_dvd (Nat.pow_dvd_pow 2 hk)]

theorem natCast_toNat_modEq (x : StackInt) : x.toNat ≡ x.toInt [ZMOD 2 ^ x.bits] := by
  cases x with
  | narrow v => exact BitVector.natCast_toNat_modEq v.toBitVec
  | wide v => exact BitVector.natCast_toNat_modEq v.toBitVec

/-- The sign only matters below zero. -/
theorem natCast_toNat (h : 0 ≤ x.toInt) : (x.toNat : Int) = x.toInt := by
  have hnonneg : ∀ {w} (b : BitVec w), 0 ≤ b.toInt → (b.toNat : Int) = b.toInt := by
    intro w b hb
    have := b.isLt
    rw [BitVec.toInt_eq_toNat_cond] at hb ⊢
    omega
  cases x with
  | narrow v => exact hnonneg v.toBitVec h
  | wide v => exact hnonneg v.toBitVec h

/-- Integers of one width are the same if they are equal. -/
theorem ext_of_toInt (hbits : x.bits = y.bits) (h : x.toInt = y.toInt) : x = y := by
  cases x with
  | narrow v =>
      cases y with
      | narrow w => exact congrArg narrow (Int32.toInt_inj.mp h)
      | wide w => cases hbits
  | wide v =>
      cases y with
      | narrow w => cases hbits
      | wide w => exact congrArg wide (Int64.toInt_inj.mp h)

/-- An integer is determined by its bits. -/
theorem ext_of_modEq (hbits : x.bits = y.bits) (h : x.toInt ≡ y.toInt [ZMOD 2 ^ x.bits]) :
  x = y
  := by
  have hmod : x.toInt % (2 ^ x.bits : Nat) = y.toInt % (2 ^ x.bits : Nat) := by
    exact_mod_cast h
  apply ext_of_toInt hbits
  calc x.toInt
    _ = (x.toInt % (2 ^ x.bits : Nat)).bmod (2 ^ x.bits) := by rw [Int.emod_bmod, toInt_bmod]
    _ = (y.toInt % (2 ^ x.bits : Nat)).bmod (2 ^ x.bits) := by rw [hmod]
    _ = y.toInt := by rw [Int.emod_bmod, hbits, toInt_bmod]

/-- An integer on the stack is in stack form. -/
theorem toStack_value (x : StackInt) : x.value.toStack = x.value := by
  cases x <;> rfl

/-! ## Integers that are converted -/

/-- An integer as what a conversion starts from. -/
def source : StackInt → ConvSource
  | narrow v => .integer v.toInt64 true
  | wide v => .integer v false

/-- A conversion of the value starts from the integer. -/
theorem ofValue_value (op : String) (x : StackInt) :
  ConvSource.ofValue op x.value = .ok x.source
  := by
  cases x <;> rfl

/-- The source has the integer with its sign. -/
theorem toInt_signedBits (x : StackInt) : x.source.signedBits.toInt = x.toInt := by
  cases x with
  | narrow v => exact v.toInt_toInt64
  | wide v => rfl

/-- The source is an integer. -/
theorem integer?_source (x : StackInt) : x.source.integer? = some x.toInt := by
  cases x with
  | narrow v => exact congrArg some v.toInt_toInt64
  | wide v => rfl

/-- Without a sign, 32 bits are extended by zeros. -/
theorem toNat_unsignedBits (x : StackInt) : x.source.unsignedBits.toNat = x.toNat := by
  cases x with
  | narrow v =>
      have hlow : v.toInt64.toBitVec.truncate 32 = v.toBitVec := by
        apply BitVec.eq_of_toInt_eq
        rw [BitVector.toInt_truncate _ (by decide), Int64.toInt_toBitVec, v.toInt_toInt64]
        exact toInt_bmod (narrow v)
      change ((v.toInt64.toBitVec.truncate 32).zeroExtend 64).toNat = v.toBitVec.toNat
      rw [hlow]
      exact BitVec.toNat_setWidth_of_le (by decide)
  | wide v => rfl

end StackInt

/-! ## Target types -/

namespace IntTarget

/-- The width of an integer type. -/
def bits : IntTarget → Nat
  | i1 | u1 => 8
  | i2 | u2 => 16
  | i4 | u4 => 32
  | i8 | u8 => 64

/-- Whether an integer type has a sign. -/
def isSigned : IntTarget → Bool
  | i1 | i2 | i4 | i8 => true
  | u1 | u2 | u4 | u8 => false

/-- The type has an integer. -/
def Has (t : IntTarget) (n : Int) : Prop :=
  if t.isSigned then -(2 ^ (t.bits - 1)) ≤ n ∧ n < 2 ^ (t.bits - 1) else 0 ≤ n ∧ n < 2 ^ t.bits

/-- The integer that a conversion to the type reads: only the conversion to 64 bits without a sign
reads 32 bits without one. -/
def reads (t : IntTarget) (x : StackInt) : Int :=
  if t = u8 then x.toNat else x.toInt

/-- What the unchecked conversion of an integer leaves: an integer of the width that the type has on
the stack, which is congruent to the one that was read.  If the type is signed or narrower than the
stack, it is an integer that the type has. -/
structure Converts (t : IntTarget) (x r : StackInt) : Prop where
  bits : r.bits = max 32 t.bits
  congruent : r.toInt ≡ t.reads x [ZMOD 2 ^ t.bits]
  extended : t.isSigned = true ∨ t.bits < 32 → t.Has r.toInt

variable {t : IntTarget} {x r r' : StackInt} {n m : Int}

/-- A type has the integers between its lowest and its highest. -/
theorem has_iff (t : IntTarget) (n : Int) : t.Has n ↔ t.low ≤ n ∧ n ≤ t.high := by
  cases t <;> simp [Has, isSigned, IntTarget.bits, low, high] <;> omega

instance : Decidable (t.Has n) :=
  decidable_of_iff _ (has_iff t n).symm

/-- Two integers of a type are equal if they are equal up to its range. -/
theorem eq_of_modEq (hn : t.Has n) (hm : t.Has m) (h : n ≡ m [ZMOD 2 ^ t.bits]) : n = m := by
  rw [has_iff] at hn hm
  rw [Int.ModEq] at h
  cases t <;> simp [IntTarget.bits, low, high] at * <;> omega

/-- A type with a sign has what remains of an integer with its sign. -/
theorem has_bmod (hsigned : t.isSigned = true) (n : Int) : t.Has (n.bmod (2 ^ t.bits)) := by
  have hle := Int.le_bmod (x := n) (Nat.two_pow_pos t.bits)
  have hlt := Int.bmod_lt (x := n) (Nat.two_pow_pos t.bits)
  rw [has_iff]
  cases t <;> simp [IntTarget.bits, isSigned, low, high] at * <;> omega

/-- A type without a sign has what remains of an integer. -/
theorem has_emod (hunsigned : t.isSigned = false) (n : Int) : t.Has (n % 2 ^ t.bits) := by
  rw [Has, hunsigned]
  exact ⟨Int.emod_nonneg n (by positivity), Int.emod_lt_of_pos n (by positivity)⟩

/-- There is one such integer. -/
theorem Converts.unique (h : t.Converts x r) (h' : t.Converts x r') : r = r' := by
  have hbits : r.bits = r'.bits := h.bits.trans h'.bits.symm
  have hcongruent := h.congruent.trans h'.congruent.symm
  by_cases hshort : t.bits < 32
  · apply StackInt.ext_of_toInt hbits
    exact eq_of_modEq (h.extended (.inr hshort)) (h'.extended (.inr hshort)) hcongruent
  · apply StackInt.ext_of_modEq hbits
    rwa [h.bits, max_eq_right (Nat.le_of_not_lt hshort)]

/-! ## Integers of a target type on the stack -/

/-- An integer of a type in its stack form. -/
def onStack (n : Int) : IntTarget → StackInt
  | i8 | u8 => .wide (Int64.ofInt n)
  | _ => .narrow (Int32.ofInt n)

/-- The stack form is the value that a conversion leaves. -/
theorem value_onStack (t : IntTarget) (n : Int) : (t.onStack n).value = t.ofInt n := by
  cases t <;> rfl

/-- The stack form has the width of the type, but no less than 32 bits. -/
theorem bits_onStack (t : IntTarget) (n : Int) : (t.onStack n).bits = max 32 t.bits := by
  cases t <;> rfl

/-- The stack form has the integer as far as it fits. -/
theorem toInt_onStack (t : IntTarget) (n : Int) :
  (t.onStack n).toInt = n.bmod (2 ^ max 32 t.bits)
  := by
  cases t with
  | i8 | u8 => exact Int64.toInt_ofInt
  | i1 | u1 | i2 | u2 | i4 | u4 => exact Int32.toInt_ofInt

theorem toInt_onStack_modEq (t : IntTarget) (n : Int) :
  (t.onStack n).toInt ≡ n [ZMOD 2 ^ max 32 t.bits]
  := by
  rw [toInt_onStack]
  exact_mod_cast Int.bmod_emod (m := 2 ^ max 32 t.bits)

/-- A type that is signed or narrower than the stack leaves the integer itself there. -/
theorem toInt_onStack_of_has (hn : t.Has n) (hextended : t.isSigned = true ∨ t.bits < 32) :
  (t.onStack n).toInt = n
  := by
  rw [has_iff] at hn
  rw [toInt_onStack]
  apply Int.bmod_eq_of_le <;> cases t <;>
    simp [IntTarget.bits, isSigned, low, high] at * <;> omega

/-- An integer that the type has is converted to the form that it has on the stack. -/
theorem Converts.of_has (hn : t.Has n) (hreads : t.reads x ≡ n [ZMOD 2 ^ t.bits]) :
  t.Converts x (t.onStack n)
  := by
  refine ⟨bits_onStack t n, ?_, fun hextended => ?_⟩
  · have hstack := (toInt_onStack_modEq t n).of_dvd (pow_dvd_pow 2 (le_max_right 32 t.bits))
    exact hstack.trans hreads.symm
  · rwa [toInt_onStack_of_has hn hextended]

/-- What a type reads from an integer is the same up to the range of the stack. -/
theorem reads_modEq (t : IntTarget) (x : StackInt) : t.reads x ≡ x.toInt [ZMOD 2 ^ x.bits] := by
  unfold reads
  split
  · exact x.natCast_toNat_modEq
  · rfl

/-- An integer that the type has is read as itself. -/
theorem reads_of_has (h : t.Has x.toInt) : t.reads x = x.toInt := by
  unfold reads
  split
  case isTrue ht =>
    subst ht
    exact x.natCast_toNat ((has_iff _ _).mp h).1
  case isFalse => rfl

/-! ## Conversions -/

/-- The low bits are read with their sign, which a type of the width of the stack need not have. -/
theorem Converts.of_bmod
    (hbits : r.bits = max 32 t.bits) (hsigned : t.isSigned = true ∨ ¬ t.bits < 32)
    (h : r.toInt = (t.reads x).bmod (2 ^ t.bits)) :
  t.Converts x r
  := by
  refine ⟨hbits, ?_, ?_⟩
  · rw [h]
    exact_mod_cast Int.bmod_emod (m := 2 ^ t.bits)
  · intro hextended
    rw [h]
    exact has_bmod (hextended.elim id fun hshort => hsigned.resolve_right (not_not_intro hshort)) _

/-- The low bits are extended by zeros. -/
theorem Converts.of_emod
    (hbits : r.bits = max 32 t.bits) (hunsigned : t.isSigned = false)
    (h : r.toInt = t.reads x % 2 ^ t.bits) :
  t.Converts x r
  := by
  refine ⟨hbits, ?_, fun _ => ?_⟩
  · rw [h]
    exact Int.mod_modEq _ _
  · rw [h]
    exact has_emod hunsigned _

/-- Every integer is converted to every type. -/
theorem exists_converts (t : IntTarget) (x : StackInt) :
  ∃ r, t.convert x.source = r.value ∧ t.Converts x r
  := by
  have hsigned := x.toInt_signedBits
  cases t with
  | i1 | i2 =>
      refine ⟨.narrow _, rfl, .of_bmod rfl (.inl rfl) ?_⟩
      rw [StackInt.toInt, Int32.toInt_ofBitVec,
        BitVector.toInt_signExtend_truncate _ (by decide) (by decide), hsigned]
      rfl
  | i4 =>
      refine ⟨.narrow _, rfl, .of_bmod rfl (.inl rfl) ?_⟩
      rw [StackInt.toInt, Int32.toInt_ofBitVec, BitVector.toInt_truncate _ (by decide), hsigned]
      rfl
  | i8 =>
      refine ⟨.wide _, rfl, .of_bmod rfl (.inl rfl) ?_⟩
      rw [StackInt.toInt, Int64.toInt_ofBitVec]
      calc x.source.signedBits.toInt
        _ = x.source.signedBits.toInt.bmod (2 ^ 64) := (BitVec.toInt_bmod_cancel _).symm
        _ = x.toInt.bmod (2 ^ 64) := by rw [hsigned]
  | u1 | u2 =>
      refine ⟨.narrow _, rfl, .of_emod rfl rfl ?_⟩
      rw [StackInt.toInt, Int32.toInt_ofBitVec,
        BitVector.toInt_zeroExtend_truncate _ (by decide) (by decide), hsigned]
      rfl
  | u4 =>
      refine ⟨.narrow _, rfl, .of_bmod rfl (.inr (by decide)) ?_⟩
      rw [StackInt.toInt, Int32.toInt_ofBitVec, BitVec.truncate, BitVec.toInt_setWidth,
        x.toNat_unsignedBits]
      exact (x.toInt_bmod_of_le x.le_bits).symm
  | u8 =>
      refine ⟨.wide _, rfl, .of_bmod rfl (.inr (by decide)) ?_⟩
      rw [StackInt.toInt, Int64.toInt_ofBitVec, BitVec.toInt_eq_toNat_bmod, x.toNat_unsignedBits]
      rfl

/-- The conversion instruction converts the integer. -/
theorem convertValue_stackInt (t : IntTarget) (x : StackInt) :
  Opcode.convertValue (.int t) x.value = .ok (t.convert x.source)
  := by
  rw [Opcode.convertValue, StackInt.ofValue_value]
  rfl

/-- The checked one converts it if the type has it, and overflows otherwise. -/
theorem convertValueChecked_stackInt (t : IntTarget) (x : StackInt) :
  Opcode.convertValueChecked t x.value
    = if t.Has x.toInt then .ok (t.ofInt x.toInt)
      else .error (.overflow (Opcode.convOvf t).mnemonic)
  := by
  rw [Opcode.convertValueChecked, StackInt.ofValue_value]
  simp only [bind, Except.bind, convertChecked, StackInt.integer?_source, has_iff]

/-- An unchecked conversion of an integer to an integer type keeps the low bits, extended to the
width of the stack.  A checked one succeeds exactly if the type has the integer, read with its sign,
and then with the same value. -/
theorem converts_stackInt (t : IntTarget) (x : StackInt) :
  ∃ r : StackInt, t.Converts x r
    ∧ Opcode.convertValue (.int t) x.value = .ok r.value
    ∧ (t.Has x.toInt → Opcode.convertValueChecked t x.value = .ok r.value)
    ∧ (¬ t.Has x.toInt →
      Opcode.convertValueChecked t x.value = .error (.overflow (Opcode.convOvf t).mnemonic))
  := by
  obtain ⟨r, hr, hconverts⟩ := t.exists_converts x
  refine ⟨r, hconverts, ?_, fun hhas => ?_, fun hhas => ?_⟩
  · rw [convertValue_stackInt, hr]
  · have hstack : t.Converts x (t.onStack x.toInt) := .of_has hhas (by rw [reads_of_has hhas])
    rw [convertValueChecked_stackInt, if_pos hhas, hconverts.unique hstack, value_onStack]
  · rw [convertValueChecked_stackInt, if_neg hhas]

end IntTarget

end ManagedCode
