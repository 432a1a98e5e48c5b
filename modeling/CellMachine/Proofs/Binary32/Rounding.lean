import CellMachine.Binary32
import Mathlib.Algebra.Order.Field.Power
import Mathlib.Data.Int.Log
import Mathlib.Data.Rat.Floor
import Mathlib.Tactic.FieldSimp
import Mathlib.Tactic.GCongr
import Mathlib.Tactic.Linarith
import Mathlib.Tactic.Positivity
import Mathlib.Tactic.Ring

/-!
# Rounding to binary32

This module proves that rounding depends on the number that is rounded and not on the fraction that
it is written as (`ofRatio_eq_of_div_eq`). A number that is the value of a pattern is rounded to
this pattern (`ofDyadic_self`), and nothing is rounded to a NaN.
-/

namespace CellMachine.Binary32

/-! ## Quotients -/

section Quotients

variable {n d n' d' k : Nat}

theorem roundDiv_mul_right (n d : Nat) (hk : 0 < k) : roundDiv (n * k) (d * k) = roundDiv n d := by
  have hbelow : 2 * (n % d * k) < d * k ↔ 2 * (n % d) < d := by
    rw [← Nat.mul_assoc, Nat.mul_lt_mul_right hk]
  have habove : d * k < 2 * (n % d * k) ↔ d < 2 * (n % d) := by
    rw [← Nat.mul_assoc, Nat.mul_lt_mul_right hk]
  simp only [roundDiv, Nat.mul_div_mul_right n d hk, Nat.mul_mod_mul_right, hbelow, habove]

/-- Equal fractions are rounded to the same integer. -/
theorem roundDiv_eq_of_mul_eq (hd : 0 < d) (hd' : 0 < d') (h : n * d' = n' * d) :
    roundDiv n d = roundDiv n' d' := by
  calc
    roundDiv n d = roundDiv (n * d') (d * d') := (roundDiv_mul_right n d hd').symm
    _ = roundDiv (n' * d) (d' * d) := by rw [h, Nat.mul_comm d d']
    _ = roundDiv n' d' := roundDiv_mul_right n' d' hd

theorem roundDiv_mul_self (m : Nat) (hd : 0 < d) : roundDiv (m * d) d = m := by
  simp [roundDiv, Nat.mul_div_cancel m hd, hd]

end Quotients

/-! ## Powers -/

section Powers

variable {b : Nat} {e : Int}

theorem zpow_of_nonneg (h : 0 ≤ e) : (b : ℚ) ^ e = (Nat.pow b e.toNat : Nat) := by
  obtain ⟨k, rfl⟩ := Int.eq_ofNat_of_zero_le h
  rw [zpow_natCast, Int.toNat_natCast]
  exact_mod_cast rfl

theorem zpow_of_neg (h : ¬0 ≤ e) : (b : ℚ) ^ e = ((Nat.pow b (-e).toNat : Nat) : ℚ)⁻¹ := by
  rw [← zpow_of_nonneg (by omega), zpow_neg, inv_inv]

end Powers

/-! ## Units -/

section Units

variable {num den : Nat}

/-- A logarithm is told by the powers that it lies between. -/
theorem log_eq_of_le_of_lt {b : Nat} (hb : 1 < b) {r : ℚ} (hr : 0 < r) {l : Int}
    (hle : (b : ℚ) ^ l ≤ r) (hlt : r < (b : ℚ) ^ (l + 1)) : Int.log b r = l := by
  have hge := (Int.zpow_le_iff_le_log hb hr).1 hle
  have hlt := (Int.lt_zpow_iff_log_lt hb hr).1 hlt
  omega

/-- A comparison with a power of two is made on natural numbers. -/
theorem div_lt_zpow_iff (num : Nat) (hden : 0 < den) (l : Int) : (num : ℚ) / den < 2 ^ l ↔
    if 0 ≤ l then num < den * Nat.pow 2 l.toNat else num * Nat.pow 2 (-l).toNat < den := by
  have hden' : (0 : ℚ) < den := by exact_mod_cast hden
  rw [div_lt_iff₀ hden', ← Nat.cast_two]
  split
  · rename_i hl
    rw [zpow_of_nonneg hl, mul_comm]
    exact_mod_cast Iff.rfl
  · rename_i hl
    have hpow : (0 : ℚ) < (Nat.pow 2 (-l).toNat : Nat) := by
      exact_mod_cast Nat.pow_pos Nat.two_pos
    rw [zpow_of_neg hl, ← div_eq_inv_mul, lt_div_iff₀ hpow]
    exact_mod_cast Iff.rfl

/-- The logarithms of the parts of a fraction leave two cases for its own. -/
theorem div_mem_of_log2 (hnum : 0 < num) (hden : 0 < den) :
    (2 : ℚ) ^ ((num.log2 : Int) - den.log2 - 1) < num / den ∧
      (num : ℚ) / den < 2 ^ ((num.log2 : Int) - den.log2 + 1) := by
  have hden' : (0 : ℚ) < den := by exact_mod_cast hden
  have hnumLe : (2 : ℚ) ^ (num.log2 : Int) ≤ num := by
    rw [zpow_natCast]
    exact_mod_cast Nat.log2_self_le hnum.ne'
  have hnumLt : (num : ℚ) < 2 ^ ((num.log2 : Int) + 1) := by
    rw [← Nat.cast_succ, zpow_natCast]
    exact_mod_cast Nat.lt_log2_self
  have hdenLe : (2 : ℚ) ^ (den.log2 : Int) ≤ den := by
    rw [zpow_natCast]
    exact_mod_cast Nat.log2_self_le hden.ne'
  have hdenLt : (den : ℚ) < 2 ^ ((den.log2 : Int) + 1) := by
    rw [← Nat.cast_succ, zpow_natCast]
    exact_mod_cast Nat.lt_log2_self
  constructor
  · rw [lt_div_iff₀ hden']
    calc
      (2 : ℚ) ^ ((num.log2 : Int) - den.log2 - 1) * den
        < 2 ^ ((num.log2 : Int) - den.log2 - 1) * 2 ^ ((den.log2 : Int) + 1) := by gcongr
      _ = 2 ^ (num.log2 : Int) := by
        rw [← zpow_add₀ two_ne_zero]
        congr 1
        omega
      _ ≤ num := hnumLe
  · rw [div_lt_iff₀ hden']
    calc
      (num : ℚ) < 2 ^ ((num.log2 : Int) + 1) := hnumLt
      _ = 2 ^ ((num.log2 : Int) - den.log2 + 1) * 2 ^ (den.log2 : Int) := by
        rw [← zpow_add₀ two_ne_zero]
        congr 1
        omega
      _ ≤ 2 ^ ((num.log2 : Int) - den.log2 + 1) * den := by gcongr

theorem unitOf_eq (hnum : 0 < num) (hden : 0 < den) :
    unitOf num den = max (Int.log 2 ((num : ℚ) / den) - 23) (-149) := by
  have hpos : (0 : ℚ) < num / den := by positivity
  obtain ⟨hlow, hhigh⟩ := div_mem_of_log2 hnum hden
  have hbelow := div_lt_zpow_iff num hden ((num.log2 : Int) - den.log2)
  generalize hl : (num.log2 : Int) - den.log2 = l at *
  have hlog : Int.log 2 ((num : ℚ) / den) = if (num : ℚ) / den < 2 ^ l then l - 1 else l := by
    split
    · rename_i h
      refine log_eq_of_le_of_lt one_lt_two hpos hlow.le ?_
      rwa [Int.sub_add_cancel]
    · rename_i h
      exact log_eq_of_le_of_lt one_lt_two hpos (not_lt.1 h) hhigh
  unfold unitOf
  simp only [hl, hlog, hbelow]
  congr 3
  split <;> simp

end Units

/-! ## Rounding -/

section Rounding

variable {num den num' den' : Nat}

/-- A number is rounded in the same way whatever fraction it is written as. -/
theorem ofRatio_eq_of_div_eq (negative : Bool) (hden : 0 < den) (hden' : 0 < den')
    (h : (num : ℚ) / den = num' / den') :
    ofRatio negative num den = ofRatio negative num' den' := by
  have hmul : num * den' = num' * den := by
    rw [div_eq_div_iff (by positivity) (by positivity)] at h
    exact_mod_cast h
  rcases Nat.eq_zero_or_pos num with rfl | hnum
  · have hnum' : num' = 0 := by
      rw [Nat.zero_mul, zero_eq_mul] at hmul
      omega
    rw [hnum', ofRatio, ofRatio, if_pos rfl, if_pos rfl]
  · have hnum' : 0 < num' := by
      refine Nat.pos_of_ne_zero ?_
      rintro rfl
      rw [Nat.zero_mul, mul_eq_zero] at hmul
      omega
    have hunit : unitOf num den = unitOf num' den' := by
      rw [unitOf_eq hnum hden, unitOf_eq hnum' hden', h]
    have hpow : ∀ k, 0 < Nat.pow 2 k := fun k => Nat.pow_pos Nat.two_pos
    have hup : ∀ k, roundDiv num (den * Nat.pow 2 k) = roundDiv num' (den' * Nat.pow 2 k) := by
      intro k
      refine roundDiv_eq_of_mul_eq (Nat.mul_pos hden (hpow k)) (Nat.mul_pos hden' (hpow k)) ?_
      rw [← Nat.mul_assoc, hmul, Nat.mul_assoc]
    have hdown : ∀ k, roundDiv (num * Nat.pow 2 k) den = roundDiv (num' * Nat.pow 2 k) den' := by
      intro k
      refine roundDiv_eq_of_mul_eq hden hden' ?_
      rw [Nat.mul_right_comm, hmul, Nat.mul_right_comm]
    simp only [ofRatio, hnum.ne', hnum'.ne', if_false, hunit, hup, hdown]

end Rounding

/-! ## Patterns -/

section Patterns

variable {x : Binary32}

/-- A sign and the other bits. -/
theorem withSign_bits (negative : Bool) {magnitude : UInt32} (h : magnitude.toNat < 0x80000000) :
    (withSign negative magnitude).bits.toNat =
      (if negative then 0x80000000 else 0) + magnitude.toNat := by
  cases negative with
  | false => exact (Nat.zero_add _).symm
  | true =>
    have hor := Nat.two_pow_add_eq_or_of_lt (i := 31) h 1
    change (magnitude ||| 0x80000000).toNat = 0x80000000 + magnitude.toNat
    rw [UInt32.toNat_or, Nat.or_comm]
    exact hor.symm

def magnitudeBits (x : Binary32) : Nat := x.bits.toNat % 0x80000000

theorem magnitudeBits_lt (x : Binary32) : x.magnitudeBits < 0x80000000 :=
  Nat.mod_lt _ (by decide)

theorem magnitudeBits_withSign (negative : Bool) {n : Nat} (h : n < 0x80000000) :
    (withSign negative (UInt32.ofNat n)).magnitudeBits = n := by
  have hword : (UInt32.ofNat n).toNat = n := UInt32.toNat_ofNat_of_lt' (Nat.lt_trans h (by decide))
  rw [magnitudeBits, withSign_bits negative (hword.symm ▸ h), hword]
  split <;> omega

theorem withSign_magnitudeBits (x : Binary32) :
    withSign x.negative (UInt32.ofNat x.magnitudeBits) = x := by
  have hlt := x.magnitudeBits_lt
  have hword : (UInt32.ofNat x.magnitudeBits).toNat = x.magnitudeBits :=
    UInt32.toNat_ofNat_of_lt' (Nat.lt_trans hlt (by decide))
  have hbits := withSign_bits x.negative (hword.symm ▸ hlt)
  have hnegative : x.negative = true ↔ 0x80000000 ≤ x.bits.toNat := by
    simp [negative, UInt32.le_iff_toNat_le]
  have hx : x.bits.toNat < 2 ^ 32 := x.bits.toNat_lt
  rw [hword] at hbits
  refine congrArg mk (UInt32.toNat_inj.1 (hbits.trans ?_))
  unfold magnitudeBits
  split
  · rename_i h
    have := hnegative.1 h
    omega
  · rename_i h
    have := mt hnegative.2 h
    omega

theorem fields_lt (x : Binary32) : x.exponent < 0x100 ∧ x.fraction < 0x800000 :=
  ⟨Nat.mod_lt _ (by decide), Nat.mod_lt _ (by decide)⟩

theorem magnitudeBits_eq_fields (x : Binary32) :
    x.magnitudeBits = x.exponent * 0x800000 + x.fraction := by
  unfold magnitudeBits exponent fraction
  omega

/-- The hidden bit of a normal mantissa carries into the exponent. -/
theorem magnitudeBits_eq (x : Binary32) :
    x.magnitudeBits = (x.scale + 149).toNat * 0x800000 + x.mantissa := by
  rw [magnitudeBits_eq_fields]
  unfold scale mantissa
  split <;> omega

theorem isZero_iff : x.isZero = true ↔ x.magnitudeBits = 0 := by
  have hand : (x.bits &&& 0x7FFFFFFF).toNat = x.magnitudeBits := by
    rw [UInt32.toNat_and]
    exact Nat.and_two_pow_sub_one_eq_mod x.bits.toNat 31
  rw [isZero, decide_eq_true_eq, ← UInt32.toNat_inj, hand]
  rfl

theorem isFinite_iff : x.isFinite = true ↔ x.magnitudeBits < 0x7F800000 := by
  obtain ⟨hexponent, hfraction⟩ := x.fields_lt
  rw [magnitudeBits_eq_fields, isFinite, decide_eq_true_eq]
  omega

/-- What is left of the patterns with the greatest exponent. -/
theorem isNaN_iff : x.isNaN = true ↔ 0x7F800000 < x.magnitudeBits := by
  obtain ⟨hexponent, hfraction⟩ := x.fields_lt
  rw [magnitudeBits_eq_fields, isNaN, Bool.and_eq_true, decide_eq_true_eq, decide_eq_true_eq]
  omega

theorem isNaN_eq_false_of_isFinite (h : x.isFinite = true) : x.isNaN = false := by
  have hbits := isFinite_iff.1 h
  rw [Bool.eq_false_iff, Ne, isNaN_iff]
  omega

def magnitude (x : Binary32) : ℚ := x.mantissa * 2 ^ x.scale

/-- The mantissa has at most 24 bits, and has 24 of them unless the scale is the least. -/
theorem mantissa_bounds (x : Binary32) : -149 ≤ x.scale ∧ x.mantissa < 2 ^ 24 ∧
    (-149 < x.scale → 2 ^ 23 ≤ x.mantissa) := by
  unfold scale mantissa exponent fraction
  split <;> omega

theorem mantissa_pos (hx : x.isZero = false) : 0 < x.mantissa := by
  have hbits : x.magnitudeBits ≠ 0 := mt isZero_iff.2 (by simp [hx])
  obtain ⟨-, -, hnormal⟩ := x.mantissa_bounds
  rw [magnitudeBits_eq] at hbits
  by_contra h
  have hscale : ¬-149 < x.scale := fun hlt => by
    have := hnormal hlt
    omega
  omega

/-- The unit of a number is what its mantissa counts. -/
theorem unitOf_of_magnitude {num den : Nat} (hnum : 0 < num) (hden : 0 < den)
    (h : (num : ℚ) / den = x.magnitude) : unitOf num den = x.scale := by
  obtain ⟨hscale, hlt, hnormal⟩ := x.mantissa_bounds
  have hpos : (0 : ℚ) < num / den := by positivity
  have hupper : Int.log 2 ((num : ℚ) / den) < 24 + x.scale := by
    refine (Int.lt_zpow_iff_log_lt one_lt_two hpos).1 ?_
    rw [h, magnitude, Nat.cast_two, zpow_add₀ two_ne_zero]
    gcongr
    exact_mod_cast hlt
  rw [unitOf_eq hnum hden]
  by_cases hleast : -149 < x.scale
  · have hlower : 23 + x.scale ≤ Int.log 2 ((num : ℚ) / den) := by
      refine (Int.zpow_le_iff_le_log one_lt_two hpos).1 ?_
      rw [h, magnitude, Nat.cast_two, zpow_add₀ two_ne_zero]
      gcongr
      exact_mod_cast hnormal hleast
    omega
  · omega

theorem magnitude_of_nonneg (h : 0 ≤ x.scale) :
    ((x.mantissa * Nat.pow 2 x.scale.toNat : Nat) : ℚ) / (1 : Nat) = x.magnitude := by
  rw [Nat.cast_mul, ← zpow_of_nonneg h, Nat.cast_two, Nat.cast_one, div_one, magnitude]

theorem magnitude_of_neg (h : ¬0 ≤ x.scale) :
    (x.mantissa : ℚ) / (Nat.pow 2 (-x.scale).toNat : Nat) = x.magnitude := by
  rw [div_eq_mul_inv, ← zpow_of_neg h, Nat.cast_two, magnitude]

/-- A number is rounded to itself. -/
theorem ofDyadic_self (hfinite : x.isFinite = true) (hx : x.isZero = false) :
    ofDyadic x.negative x.mantissa x.scale = x := by
  have hmantissa := mantissa_pos hx
  have hpow : ∀ k, 0 < Nat.pow 2 k := fun k => Nat.pow_pos Nat.two_pos
  have hbits := x.magnitudeBits_eq
  have hpattern : withSign x.negative (UInt32.ofNat (min x.magnitudeBits 0x7F800000)) = x := by
    rw [Nat.min_eq_left (isFinite_iff.1 hfinite).le, withSign_magnitudeBits]
  unfold ofDyadic
  split
  · rename_i hscale
    have hnum : 0 < x.mantissa * Nat.pow 2 x.scale.toNat := Nat.mul_pos hmantissa (hpow _)
    have hunit := unitOf_of_magnitude hnum Nat.one_pos (magnitude_of_nonneg hscale)
    have hround : roundDiv (x.mantissa * Nat.pow 2 x.scale.toNat) (1 * Nat.pow 2 x.scale.toNat) =
        x.mantissa := by
      rw [Nat.one_mul]
      exact roundDiv_mul_self _ (hpow _)
    simp only [ofRatio, hnum.ne', if_false, hunit, hscale, if_true, hround, ← hbits, hpattern]
  · rename_i hscale
    have hunit := unitOf_of_magnitude hmantissa (hpow _) (magnitude_of_neg hscale)
    have hround : roundDiv (x.mantissa * Nat.pow 2 (-x.scale).toNat)
        (Nat.pow 2 (-x.scale).toNat) = x.mantissa := roundDiv_mul_self _ (hpow _)
    simp only [ofRatio, hmantissa.ne', if_false, hunit, hscale, hround, ← hbits, hpattern]

/-- A fraction that is a number is rounded to this number. -/
theorem ofRatio_of_magnitude (hfinite : x.isFinite = true) (hx : x.isZero = false) {num den : Nat}
    (hden : 0 < den) (h : (num : ℚ) / den = x.magnitude) : ofRatio x.negative num den = x := by
  have hself := ofDyadic_self hfinite hx
  unfold ofDyadic at hself
  split at hself
  · rename_i hscale
    exact (ofRatio_eq_of_div_eq _ hden Nat.one_pos
      (h.trans (magnitude_of_nonneg hscale).symm)).trans hself
  · rename_i hscale
    exact (ofRatio_eq_of_div_eq _ hden (Nat.pow_pos Nat.two_pos)
      (h.trans (magnitude_of_neg hscale).symm)).trans hself

theorem magnitude_bounds (hfinite : x.isFinite = true) (hx : x.isZero = false) :
    (2 : ℚ) ^ (-149 : Int) ≤ x.magnitude ∧ x.magnitude < 2 ^ (128 : Int) := by
  obtain ⟨hscale, hlt, -⟩ := x.mantissa_bounds
  have hmantissa : (1 : ℚ) ≤ x.mantissa := by exact_mod_cast mantissa_pos hx
  have hmantissa' : (x.mantissa : ℚ) < 2 ^ (24 : Int) := by exact_mod_cast hlt
  have hgreatest : x.scale ≤ 104 := by
    have hexponent := x.fields_lt.1
    rw [isFinite, decide_eq_true_eq] at hfinite
    unfold scale
    split <;> omega
  have hone : (1 : ℚ) < 2 := one_lt_two
  unfold magnitude
  constructor
  · calc
      (2 : ℚ) ^ (-149 : Int) ≤ 2 ^ x.scale := zpow_le_zpow_right₀ hone.le hscale
      _ ≤ x.mantissa * 2 ^ x.scale := le_mul_of_one_le_left (by positivity) hmantissa
  · calc
      (x.mantissa : ℚ) * 2 ^ x.scale < 2 ^ (24 : Int) * 2 ^ x.scale := by gcongr
      _ = 2 ^ (24 + x.scale) := (zpow_add₀ two_ne_zero _ _).symm
      _ ≤ 2 ^ (128 : Int) := zpow_le_zpow_right₀ hone.le (by omega)

/-- Rounding comes to a number or an infinity. -/
theorem isNaN_ofRatio (negative : Bool) (num den : Nat) :
    (ofRatio negative num den).isNaN = false := by
  have hbits : ∀ n, (withSign negative (UInt32.ofNat (min n 0x7F800000))).isNaN = false := by
    intro n
    rw [Bool.eq_false_iff, Ne, isNaN_iff, magnitudeBits_withSign negative (by omega)]
    omega
  unfold ofRatio
  split
  · exact hbits 0
  · exact hbits _

end Patterns

end CellMachine.Binary32
