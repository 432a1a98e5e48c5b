import CellMachine.Arithmetic
import Mathlib.Algebra.Order.Ring.Int
import Mathlib.Data.Int.Bitwise
import Mathlib.Tactic.Ring

/-!
# Arithmetic on words

This module proves that operations on words are exact or refused (`words_exact_or_refused`). The
exact result is one of integers, which have no greatest and no least: `UintOp.result?` is computed
from natural numbers and `SintOp.result?` from integers, of which words are a part. An operation
comes to the word that is its exact result. If no word is, it fails; and it fails in another way if
there is no exact result, which is when a number is divided by zero or raised to a negative power.
-/

namespace CellMachine

/-! ## Powers -/

section Powers

variable {base n : Int} {exponent k : Nat}

/-- Of the powers of 0, 1 and -1 the first three are all. -/
theorem pow_of_natAbs_le_one (h : base.natAbs ≤ 1) :
    base ^ (if exponent = 0 then 0 else 2 - exponent % 2) = base ^ exponent := by
  have hbase : base = 0 ∨ base = 1 ∨ base = -1 := by omega
  by_cases h0 : exponent = 0
  · rw [if_pos h0, h0]
  · rw [if_neg h0]
    rcases Nat.even_or_odd exponent with heven | hodd
    · rw [Nat.even_iff.1 heven]
      rcases hbase with rfl | rfl | rfl
      · rw [zero_pow h0, zero_pow (by decide)]
      · rw [one_pow, one_pow]
      · rw [heven.neg_one_pow]
        rfl
    · rw [Nat.odd_iff.1 hodd]
      rcases hbase with rfl | rfl | rfl
      · rw [zero_pow h0, zero_pow (by decide)]
      · rw [one_pow, one_pow]
      · rw [hodd.neg_one_pow]
        rfl

theorem eq_pow_of_boundedPower (h : boundedPower base exponent k = some n) :
    n = base ^ exponent := by
  unfold boundedPower at h
  split at h
  · rename_i hbase
    cases h
    exact pow_of_natAbs_le_one hbase
  · split at h
    · cases h
      rfl
    · cases h

/-- A power that is not computed is beyond the bound. -/
theorem lt_natAbs_pow_of_boundedPower (h : boundedPower base exponent k = none) :
    2 ^ k < (base ^ exponent).natAbs := by
  unfold boundedPower at h
  split at h
  · cases h
  · split at h
    · cases h
    · rename_i hbase hexponent
      calc 2 ^ k < 2 ^ exponent := Nat.pow_lt_pow_right (by decide) (by omega)
        _ ≤ base.natAbs ^ exponent := Nat.pow_le_pow_left (by omega) _
        _ = (base ^ exponent).natAbs := (Int.natAbs_pow base exponent).symm

end Powers

/-! ## Bits -/

/-- Integers with the same bits are the same. -/
theorem eq_of_testBit_eq {m n : Int} (h : ∀ k, m.testBit k = n.testBit k) : m = n := by
  -- Far enough up, all bits of an integer are its sign.
  have hsign (a b : Nat) (hab : ∀ k, a.testBit k = !b.testBit k) : False := by
    have ha : a.testBit (a + b) = false :=
      Nat.testBit_lt_two_pow (Nat.lt_of_le_of_lt (Nat.le_add_right a b) Nat.lt_two_pow_self)
    have hb : b.testBit (a + b) = false :=
      Nat.testBit_lt_two_pow (Nat.lt_of_le_of_lt (Nat.le_add_left b a) Nat.lt_two_pow_self)
    have hbit := hab (a + b)
    rw [ha, hb] at hbit
    cases hbit
  cases m with
  | ofNat a =>
    cases n with
    | ofNat b => exact congrArg Int.ofNat (Nat.eq_of_testBit_eq h)
    | negSucc b => exact (hsign a b h).elim
  | negSucc a =>
    cases n with
    | ofNat b => exact (hsign b a fun k => (h k).symm).elim
    | negSucc b => exact congrArg Int.negSucc (Nat.eq_of_testBit_eq fun k => Bool.not_inj (h k))

/-- In two's complement the bits of a number go on with its sign. -/
theorem testBit_toInt {w : Nat} (x : BitVec w) (k : Nat) :
    x.toInt.testBit k = if k < w then x.getLsbD k else x.msb := by
  cases hmsb : x.msb with
  | false =>
    rw [BitVec.toInt_eq_toNat_of_msb hmsb]
    change x.getLsbD k = _
    split
    · rfl
    · rename_i hk
      exact BitVec.getLsbD_of_ge x k (by omega)
  | true =>
    have htoInt : x.toInt = Int.negSucc (~~~x).toNat := by
      have hx := x.isLt
      rw [BitVec.toInt_eq_msb_cond, if_pos hmsb, BitVec.toNat_not, Int.negSucc_eq]
      omega
    rw [htoInt]
    change (!(~~~x).getLsbD k) = _
    rw [BitVec.getLsbD_not]
    split
    · rename_i hk
      simp [hk]
    · rename_i hk
      simp [hk]

section Bits

variable (a b : Int32)

theorem toInt_and : (a &&& b).toInt = a.toInt.land b.toInt := by
  refine eq_of_testBit_eq fun k => ?_
  rw [Int.testBit_land]
  simp only [Int32.toInt, Int32.toBitVec_and, testBit_toInt, BitVec.getLsbD_and, BitVec.msb_and]
  split <;> rfl

theorem toInt_or : (a ||| b).toInt = a.toInt.lor b.toInt := by
  refine eq_of_testBit_eq fun k => ?_
  rw [Int.testBit_lor]
  simp only [Int32.toInt, Int32.toBitVec_or, testBit_toInt, BitVec.getLsbD_or, BitVec.msb_or]
  split <;> rfl

theorem toInt_xor : (a ^^^ b).toInt = a.toInt.xor b.toInt := by
  refine eq_of_testBit_eq fun k => ?_
  rw [Int.testBit_lxor]
  simp only [Int32.toInt, Int32.toBitVec_xor, testBit_toInt, BitVec.getLsbD_xor, BitVec.msb_xor]
  split <;> rfl

end Bits

/-! ## Exact results -/

/-- What an operation comes to whose exact result is given, if there is one: to the word that is the
result, or to one error if there is no result and to another one if no word is the result. -/
inductive Checked {α : Type} (number : α → Int) (undefined range : ArithmeticError) :
    Option Int → Except ArithmeticError α → Prop
  | undefined : Checked number undefined range none (.error undefined)
  | exact (r : α) : Checked number undefined range (some (number r)) (.ok r)
  | range {n : Int} (h : ¬∃ r, number r = n) :
    Checked number undefined range (some n) (.error range)

namespace Checked

variable {α : Type} {number : α → Int} {undefined range : ArithmeticError} {result? : Option Int}
  {outcome : Except ArithmeticError α}

theorem eq_ok_iff (h : Checked number undefined range result? outcome)
    (hnumber : ∀ {a b}, number a = number b → a = b) {r : α} :
    outcome = .ok r ↔ result? = some (number r) := by
  cases h with
  | undefined => simp
  | exact s => exact ⟨fun h => by cases h; rfl, fun h => by rw [hnumber (Option.some.inj h)]⟩
  | range hn =>
    refine ⟨nofun, fun h => ?_⟩
    exact absurd ⟨r, (Option.some.inj h).symm⟩ hn

theorem exists_ok_iff (h : Checked number undefined range result? outcome) :
    (∃ r, outcome = .ok r) ↔ ∃ n, result? = some n ∧ ∃ r, number r = n := by
  cases h with
  | undefined => simp
  | exact s => simp
  | range hn =>
    constructor
    · rintro ⟨r, hr⟩
      cases hr
    · rintro ⟨m, hm, hr⟩
      cases hm
      exact absurd hr hn

theorem eq_undefined_iff (h : Checked number undefined range result? outcome)
    (hne : range ≠ undefined) : outcome = .error undefined ↔ result? = none := by
  cases h with
  | undefined => simp
  | exact s => simp
  | range hn => simp [hne]

theorem eq_range_iff (h : Checked number undefined range result? outcome)
    (hne : undefined ≠ range) :
    outcome = .error range ↔ ∃ n, result? = some n ∧ ¬∃ r, number r = n := by
  cases h with
  | undefined => simp [hne]
  | exact s => simp
  | range hn => exact ⟨fun _ => ⟨_, rfl, hn⟩, fun _ => rfl⟩

end Checked

/-! ## Unsigned words -/

theorem exists_toNat_eq_iff {n : Int} :
    (∃ r : UInt32, (r.toNat : Int) = n) ↔ 0 ≤ n ∧ n < 2 ^ 32 := by
  constructor
  · rintro ⟨r, rfl⟩
    have hr : r.toNat < 2 ^ 32 := r.toNat_lt
    omega
  · rintro ⟨h0, hn⟩
    refine ⟨UInt32.ofNat n.toNat, ?_⟩
    rw [UInt32.toNat_ofNat_of_lt' (show n.toNat < 2 ^ 32 by omega)]
    omega

namespace UintOp

/-- The exact result of an operation on natural numbers, if there is one. -/
def result? (op : UintOp) (a b : Nat) : Option Int :=
  match op with
  | add => some (a + b)
  | sub => some (a - b)
  | mul => some (a * b)
  | div => if b = 0 then none else some (a / b : Nat)
  | mod => if b = 0 then none else some (a % b : Nat)
  | pow => some (a ^ b : Nat)
  | and => some (a &&& b : Nat)
  | or => some (a ||| b : Nat)
  | xor => some (a ^^^ b : Nat)
  | shiftLeft => some (a * 2 ^ b : Nat)
  | shiftRight => some (a / 2 ^ b : Nat)

/-- What an operation on unsigned words comes to, by its exact result. -/
abbrev Checks (op : UintOp) : Option Int → Except ArithmeticError UInt32 → Prop :=
  Checked (fun r => r.toNat) .divisionByZero (.uintRange op)

variable {op : UintOp}

theorem checks_ok {n : Nat} {r : UInt32} (h : r.toNat = n) : op.Checks (some n) (.ok r) := by
  subst h
  exact .exact r

theorem checks_range {n : Int} (h : ¬(0 ≤ n ∧ n < 2 ^ 32)) :
    op.Checks (some n) (.error (.uintRange op)) :=
  .range (mt exists_toNat_eq_iff.1 h)

theorem checks_word (n : Nat) : op.Checks (some n) (op.word n) := by
  unfold word
  split
  · rename_i hn
    exact checks_ok (UInt32.toNat_ofNat_of_lt' hn)
  · rename_i hn
    refine checks_range fun h => hn ?_
    change n < 2 ^ 32
    omega

theorem checks_apply (op : UintOp) (a b : UInt32) :
    op.Checks (op.result? a.toNat b.toNat) (op.apply a b) := by
  have hzero : b.toNat = 0 ↔ b = 0 := UInt32.toNat_inj (b := 0)
  cases op with
  | add => exact checks_word (a.toNat + b.toNat)
  | mul => exact checks_word (a.toNat * b.toNat)
  | and => exact checks_ok (UInt32.toNat_and a b)
  | or => exact checks_ok (UInt32.toNat_or a b)
  | xor => exact checks_ok (UInt32.toNat_xor a b)
  | sub =>
    simp only [apply, result?]
    split
    · rename_i hle
      rw [← Int.natCast_sub (UInt32.le_iff_toNat_le.1 hle)]
      exact checks_ok (UInt32.toNat_sub_of_le a b hle)
    · rename_i hle
      rw [UInt32.le_iff_toNat_le] at hle
      exact checks_range (by omega)
  | div =>
    simp only [apply, result?, hzero]
    split
    · exact .undefined
    · exact checks_ok (UInt32.toNat_div a b)
  | mod =>
    simp only [apply, result?, hzero]
    split
    · exact .undefined
    · exact checks_ok (UInt32.toNat_mod a b)
  | pow =>
    simp only [apply, result?]
    split
    · rename_i n hn
      -- The power is one of a natural number, though it is computed with integers.
      obtain rfl := eq_pow_of_boundedPower hn
      rw [← Int.natCast_pow, Int.toNat_natCast]
      exact checks_word _
    · rename_i hn
      have hgreat := lt_natAbs_pow_of_boundedPower hn
      rw [← Int.natCast_pow, Int.natAbs_natCast] at hgreat
      exact checks_range (by omega)
  | shiftLeft =>
    simp only [apply, result?]
    split
    · rename_i ha
      rw [ha]
      exact checks_ok (Nat.zero_mul _).symm
    · split
      · rename_i ha hb
        -- Shifted by so many places, every number but zero is too great.
        have hfactor : 0 < a.toNat := Nat.pos_of_ne_zero fun h => ha (UInt32.toNat_inj.1 h)
        have hgreat : 2 ^ 32 ≤ a.toNat * 2 ^ b.toNat :=
          calc 2 ^ 32 ≤ 2 ^ b.toNat :=
                Nat.pow_le_pow_right (by decide) (UInt32.le_iff_toNat_le.1 hb)
            _ ≤ a.toNat * 2 ^ b.toNat := Nat.le_mul_of_pos_left _ hfactor
        exact checks_range (by omega)
      · exact checks_word _
  | shiftRight =>
    refine checks_ok ?_
    split
    · rename_i hb
      have hless : a.toNat < 2 ^ b.toNat :=
        calc a.toNat < 2 ^ 32 := a.toNat_lt
          _ ≤ 2 ^ b.toNat := Nat.pow_le_pow_right (by decide) (UInt32.le_iff_toNat_le.1 hb)
      exact (Nat.div_eq_of_lt hless).symm
    · rename_i hb
      have hplaces : b.toNat < 32 := Nat.lt_of_not_le fun h => hb (UInt32.le_iff_toNat_le.2 h)
      rw [UInt32.toNat_shiftRight, Nat.mod_eq_of_lt hplaces, Nat.shiftRight_eq_div_pow]

end UintOp

/-! ## Signed words -/

theorem exists_toInt_eq_iff {n : Int} :
    (∃ r : Int32, r.toInt = n) ↔ -2 ^ 31 ≤ n ∧ n < 2 ^ 31 := by
  constructor
  · rintro ⟨r, rfl⟩
    exact ⟨r.le_toInt, r.toInt_lt⟩
  · rintro ⟨hlow, hhigh⟩
    exact ⟨Int32.ofInt n, Int32.toInt_ofInt_of_le hlow hhigh⟩

namespace SintOp

/-- The exact result of an operation on integers, if there is one. -/
def result? (op : SintOp) (a b : Int) : Option Int :=
  match op with
  | add => some (a + b)
  | sub => some (a - b)
  | mul => some (a * b)
  | div => if b = 0 then none else some (a.tdiv b)
  | pow => if b < 0 then none else some (a ^ b.toNat)
  | and => some (a.land b)
  | or => some (a.lor b)
  | xor => some (a.xor b)

def undefinedError (op : SintOp) (b : Int32) : ArithmeticError :=
  if op = pow then .negativeExponent b else .divisionByZero

/-- What an operation on signed words comes to, by its exact result. -/
abbrev Checks (op : SintOp) (b : Int32) : Option Int → Except ArithmeticError Int32 → Prop :=
  Checked Int32.toInt (op.undefinedError b) (.sintRange op)

variable {op : SintOp} {b : Int32}

theorem checks_ok {n : Int} {r : Int32} (h : r.toInt = n) : op.Checks b (some n) (.ok r) := by
  subst h
  exact .exact r

theorem checks_range {n : Int} (h : ¬(-2 ^ 31 ≤ n ∧ n < 2 ^ 31)) :
    op.Checks b (some n) (.error (.sintRange op)) :=
  .range (mt exists_toInt_eq_iff.1 h)

theorem checks_word (n : Int) : op.Checks b (some n) (op.word n) := by
  unfold word
  split
  · rename_i hn
    exact checks_ok (Int32.toInt_ofInt_of_le hn.1 hn.2)
  · rename_i hn
    exact checks_range hn

theorem checks_apply (op : SintOp) (a b : Int32) :
    op.Checks b (op.result? a.toInt b.toInt) (op.apply a b) := by
  have hzero : b.toInt = 0 ↔ b = 0 := Int32.toInt_inj (y := 0)
  have hnegative : b.toInt < 0 ↔ b < 0 := (Int32.lt_iff_toInt_lt (y := 0)).symm
  cases op with
  | add => exact checks_word (a.toInt + b.toInt)
  | sub => exact checks_word (a.toInt - b.toInt)
  | mul => exact checks_word (a.toInt * b.toInt)
  | and => exact checks_ok (toInt_and a b)
  | or => exact checks_ok (toInt_or a b)
  | xor => exact checks_ok (toInt_xor a b)
  | div =>
    simp only [apply, result?, hzero]
    split
    · exact .undefined
    · exact checks_word _
  | pow =>
    simp only [apply, result?, hnegative]
    split
    · exact .undefined
    · split
      · rename_i n hn
        obtain rfl := eq_pow_of_boundedPower hn
        exact checks_word _
      · rename_i hn
        have hgreat := lt_natAbs_pow_of_boundedPower hn
        exact checks_range (by omega)

end SintOp

/-! ## Words -/

/-- An operation on words comes to its exact result if that is a word. If it is not one, or if there
is none, the operation fails, and its error tells which. The bitwise operations act on the numbers
in two's complement, and never fail. -/
theorem words_exact_or_refused :
    (∀ (op : UintOp) (a b : UInt32),
      (∀ r, op.apply a b = .ok r ↔ op.result? a.toNat b.toNat = some (r.toNat : Int)) ∧
      ((∃ r, op.apply a b = .ok r) ↔
        ∃ n, op.result? a.toNat b.toNat = some n ∧ 0 ≤ n ∧ n < 2 ^ 32) ∧
      (op.apply a b = .error .divisionByZero ↔ op.result? a.toNat b.toNat = none) ∧
      (op.apply a b = .error (.uintRange op) ↔
        ∃ n, op.result? a.toNat b.toNat = some n ∧ ¬(0 ≤ n ∧ n < 2 ^ 32))) ∧
    (∀ (op : SintOp) (a b : Int32),
      (∀ r, op.apply a b = .ok r ↔ op.result? a.toInt b.toInt = some r.toInt) ∧
      ((∃ r, op.apply a b = .ok r) ↔
        ∃ n, op.result? a.toInt b.toInt = some n ∧ -2 ^ 31 ≤ n ∧ n < 2 ^ 31) ∧
      (op.apply a b = .error (if op = .pow then .negativeExponent b else .divisionByZero) ↔
        op.result? a.toInt b.toInt = none) ∧
      (op.apply a b = .error (.sintRange op) ↔
        ∃ n, op.result? a.toInt b.toInt = some n ∧ ¬(-2 ^ 31 ≤ n ∧ n < 2 ^ 31))) ∧
    (∀ a b : UInt32, ∃ x y z, UintOp.and.apply a b = .ok x ∧ UintOp.or.apply a b = .ok y ∧
      UintOp.xor.apply a b = .ok z) ∧
    ∀ a b : Int32, ∃ x y z, SintOp.and.apply a b = .ok x ∧ SintOp.or.apply a b = .ok y ∧
      SintOp.xor.apply a b = .ok z := by
  refine ⟨?_, ?_, fun _ _ => ⟨_, _, _, rfl, rfl, rfl⟩, fun _ _ => ⟨_, _, _, rfl, rfl, rfl⟩⟩
  · intro op a b
    have h := op.checks_apply a b
    simp only [← exists_toNat_eq_iff]
    refine ⟨fun r => h.eq_ok_iff fun hr => ?_, h.exists_ok_iff, h.eq_undefined_iff nofun,
      h.eq_range_iff nofun⟩
    exact UInt32.toNat_inj.1 (Int.natCast_inj.1 hr)
  · intro op a b
    have h := op.checks_apply a b
    have hne : ArithmeticError.sintRange op ≠ op.undefinedError b := by
      unfold SintOp.undefinedError
      split <;> exact nofun
    simp only [← exists_toInt_eq_iff]
    exact ⟨fun r => h.eq_ok_iff Int32.toInt.inj, h.exists_ok_iff, h.eq_undefined_iff hne,
      h.eq_range_iff hne.symm⟩

/-- The power that is the least signed word is not refused, though the greatest one is smaller. -/
example : SintOp.pow.apply (-2) 31 = .ok (-0x80000000) := by decide

end CellMachine
