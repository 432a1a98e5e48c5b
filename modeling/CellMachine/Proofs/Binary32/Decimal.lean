import CellMachine.Binary32.Decimal
import CellMachine.Proofs.Binary32.Rounding
import CellMachine.Proofs.Text.Numeral
import Mathlib.Tactic.SplitIfs

/-!
# Binary32 numbers in decimal

This module proves that the text of a number is read back as the number (`parse?_toPointText`). What
a decimal is rounded to depends on its value alone (`ofDecimal_eq_of_value_eq`), so that it does not
matter where the point stands and how many zeros there are. NaNs are all written in the same way,
and of the texts that are read as one only `-nan` is read as another one than the text that is
written (`isNaN_and_ne_nan_iff`).
-/

namespace CellMachine

namespace Decimal

variable {d d' : Decimal}

def value (d : Decimal) : ℚ := d.digits * 10 ^ d.power

theorem value_eq_zero_iff : d.value = 0 ↔ d.digits = 0 := by
  simp [value, zpow_ne_zero]

theorem value_pos (h : d.digits ≠ 0) : 0 < d.value := by
  have hdigits : (0 : ℚ) < d.digits := by exact_mod_cast Nat.pos_of_ne_zero h
  unfold value
  positivity

theorem exists_fraction (d : Decimal) : ∃ num den : Nat, 0 < den ∧ d.value = num / den := by
  by_cases hpower : 0 ≤ d.power
  · refine ⟨d.digits * Nat.pow 10 d.power.toNat, 1, Nat.one_pos, ?_⟩
    rw [Nat.cast_mul, ← Binary32.zpow_of_nonneg hpower, Nat.cast_one, div_one]
    rfl
  · refine ⟨d.digits, Nat.pow 10 (-d.power).toNat, Nat.pow_pos (by decide), ?_⟩
    rw [div_eq_mul_inv, ← Binary32.zpow_of_neg hpower]
    rfl

/-- A zero at the end of the digits is worth one power. -/
theorem value_div_ten (h : d.digits % 10 = 0) : value ⟨d.digits / 10, d.power + 1⟩ = d.value := by
  have hdigits : (d.digits : ℚ) = (d.digits / 10 : Nat) * 10 := by
    exact_mod_cast (Nat.div_mul_cancel (Nat.dvd_of_mod_eq_zero h)).symm
  rw [value, value, hdigits, zpow_add_one₀ (by norm_num)]
  ring

theorem value_reduced (d : Decimal) : d.reduced.value = d.value := by
  induction d using reduced.induct with
  | case1 d h ih => rw [reduced, dif_pos h, ih, value_div_ten h.2]
  | case2 d h => rw [reduced, dif_neg h]

end Decimal

namespace Binary32

open Decimal

variable {x : Binary32} {d d' : Decimal} {negative : Bool}

/-! ## Rounding decimals -/

theorem digitCount_le_iff {n k : Nat} (hn : n ≠ 0) (hk : 0 < k) :
    digitCount n ≤ k ↔ n < 10 ^ k := by
  rw [digitCount, if_neg hn, ← String.length_toList, Nat.toList_repr]
  exact Nat.length_toDigits_le_iff (by decide) hk

theorem digitCount_bounds {n : Nat} (hn : n ≠ 0) :
    0 < digitCount n ∧ 10 ^ (digitCount n - 1) ≤ n ∧ n < 10 ^ digitCount n := by
  have hpos : 0 < digitCount n := by
    rw [digitCount, if_neg hn, ← String.length_toList]
    exact List.length_pos_of_ne_nil (Text.repr_ne_nil n)
  refine ⟨hpos, ?_, (digitCount_le_iff hn hpos).1 (Nat.le_refl _)⟩
  by_cases hone : digitCount n = 1
  · rw [hone]
    exact Nat.pos_of_ne_zero hn
  · by_contra hlt
    have hle := (digitCount_le_iff hn (by omega)).2 (Nat.lt_of_not_le hlt)
    omega

/-- The place in front of the first digit depends on the value. -/
theorem top_eq (h : d.digits ≠ 0) :
    d.power + digitCount d.digits = Int.log 10 d.value + 1 := by
  obtain ⟨hpos, hle, hlt⟩ := digitCount_bounds h
  have hdigitsLe : (10 : ℚ) ^ ((digitCount d.digits : Int) - 1) ≤ d.digits := by
    rw [← Int.natCast_pred_of_pos hpos, zpow_natCast]
    exact_mod_cast hle
  have hdigitsLt : (d.digits : ℚ) < 10 ^ (digitCount d.digits : Int) := by
    rw [zpow_natCast]
    exact_mod_cast hlt
  have hlog : Int.log 10 d.value = digitCount d.digits - 1 + d.power := by
    refine log_eq_of_le_of_lt (by decide) (value_pos h) ?_ ?_
    · rw [Nat.cast_ofNat, value, zpow_add₀ (by norm_num)]
      gcongr
    · rw [Nat.cast_ofNat, value, add_right_comm, sub_add_cancel, zpow_add₀ (by norm_num)]
      gcongr
  omega

theorem ofDecimal_of_digits_eq_zero (h : d.digits = 0) : ofDecimal negative d = zero negative := by
  rw [ofDecimal, h]
  rfl

/-- What a decimal is rounded to within the range in which anything is computed. -/
theorem ofDecimal_eq_ofRatio {num den : Nat} (hden : 0 < den) (hd : d.digits ≠ 0)
    (hvalue : d.value = num / den) (hlow : -60 ≤ Int.log 10 d.value + 1)
    (hhigh : Int.log 10 d.value + 1 ≤ 60) : ofDecimal negative d = ofRatio negative num den := by
  have hzero : (decide (d.digits = 0) || decide (Int.log 10 d.value + 1 < -60)) = false := by
    simp [hd, hlow]
  simp only [ofDecimal, top_eq hd, hzero, Bool.false_eq_true, if_false, not_lt.2 hhigh]
  split
  · rename_i hpower
    refine ofRatio_eq_of_div_eq negative Nat.one_pos hden ?_
    rw [← hvalue, Nat.cast_mul, ← zpow_of_nonneg hpower, Nat.cast_one, div_one, value]
    rfl
  · rename_i hpower
    refine ofRatio_eq_of_div_eq negative (Nat.pow_pos (by decide)) hden ?_
    rw [← hvalue, div_eq_mul_inv, ← zpow_of_neg hpower, value]
    rfl

/-- Decimals of one value are rounded to one number. -/
theorem ofDecimal_eq_of_value_eq (h : d.value = d'.value) :
    ofDecimal negative d = ofDecimal negative d' := by
  by_cases hd : d.digits = 0
  · have hd' : d'.digits = 0 := value_eq_zero_iff.1 (h ▸ value_eq_zero_iff.2 hd)
    rw [ofDecimal_of_digits_eq_zero hd, ofDecimal_of_digits_eq_zero hd']
  · have hd' : d'.digits ≠ 0 := fun h' => hd (value_eq_zero_iff.1 (h ▸ value_eq_zero_iff.2 h'))
    by_cases hrange : -60 ≤ Int.log 10 d.value + 1 ∧ Int.log 10 d.value + 1 ≤ 60
    · obtain ⟨num, den, hden, hvalue⟩ := d.exists_fraction
      rw [ofDecimal_eq_ofRatio hden hd hvalue hrange.1 hrange.2]
      rw [h] at hvalue hrange
      rw [ofDecimal_eq_ofRatio hden hd' hvalue hrange.1 hrange.2]
    · -- The result is told by the place of the first digit.
      by_cases hlow : Int.log 10 d'.value + 1 < -60
      · simp [ofDecimal, top_eq hd, top_eq hd', h, hlow]
      · have hhigh : 60 < Int.log 10 d'.value + 1 := by
          rw [h] at hrange
          omega
        simp [ofDecimal, top_eq hd, top_eq hd', h, hd, hd', hlow, hhigh]

theorem value_exactDecimal (x : Binary32) : x.exactDecimal.value = x.magnitude := by
  unfold exactDecimal magnitude
  split
  · rename_i hscale
    rw [value, Nat.cast_mul, ← zpow_of_nonneg hscale, Nat.cast_two]
    simp
  · rename_i hscale
    have hpow : ((Nat.pow 5 (-x.scale).toNat : Nat) : ℚ) = (5 ^ x.scale)⁻¹ := by
      rw [← inv_inv ((Nat.pow 5 (-x.scale).toNat : Nat) : ℚ), ← zpow_of_neg hscale]
      rfl
    have hten : (10 : ℚ) ^ x.scale = 5 ^ x.scale * 2 ^ x.scale := by
      rw [← mul_zpow]
      norm_num
    rw [value, Nat.cast_mul, hpow, hten]
    field_simp

/-- The exact decimal of a number is rounded to the number. -/
theorem ofDecimal_exactDecimal (hfinite : x.isFinite = true) (hx : x.isZero = false) :
    ofDecimal x.negative x.exactDecimal = x := by
  have hvalue := x.value_exactDecimal
  obtain ⟨hlow, hhigh⟩ := magnitude_bounds hfinite hx
  have hpos : 0 < x.magnitude := lt_of_lt_of_le (by positivity) hlow
  have hd : x.exactDecimal.digits ≠ 0 := by
    rw [Ne, ← value_eq_zero_iff, hvalue]
    exact hpos.ne'
  have hlogLow : -60 ≤ Int.log 10 x.magnitude := by
    refine (Int.zpow_le_iff_le_log (by decide) hpos).1 (le_trans ?_ hlow)
    norm_num
  have hlogHigh : Int.log 10 x.magnitude < 59 := by
    refine (Int.lt_zpow_iff_log_lt (by decide) hpos).1 (lt_of_lt_of_le hhigh ?_)
    norm_num
  rw [← hvalue] at hlogLow hlogHigh
  obtain ⟨num, den, hden, hfraction⟩ := x.exactDecimal.exists_fraction
  rw [ofDecimal_eq_ofRatio hden hd hfraction (by omega) (by omega)]
  exact ofRatio_of_magnitude hfinite hx hden (hfraction.symm.trans hvalue)

/-- The shortest decimal of a number is rounded to the number. -/
theorem ofDecimal_shortest (hfinite : x.isFinite = true) (hx : x.isZero = false) :
    ofDecimal x.negative x.shortest = x := by
  have hreduced : ∀ d : Decimal, ofDecimal x.negative d.reduced = ofDecimal x.negative d :=
    fun d => ofDecimal_eq_of_value_eq d.value_reduced
  unfold shortest
  rw [hreduced]
  generalize (List.flatMap _ _ : List Decimal) = candidates
  cases hfind : candidates.find? fun d => ofDecimal x.negative d = x with
  | none => exact ofDecimal_exactDecimal hfinite hx
  | some d =>
    have hd := List.find?_some hfind
    exact of_decide_eq_true hd

/-! ## Digits and points -/

theorem takeDigits_append {cs : List Char} (h : ∀ c ∈ cs, c.isDigit) {rest : List Char}
    (hrest : ∀ c ∈ rest.head?, c.isDigit = false) : takeDigits (cs ++ rest) = (cs, rest) := by
  have htail : rest.takeWhile Char.isDigit = [] ∧ rest.dropWhile Char.isDigit = rest := by
    cases rest with
    | nil => exact ⟨rfl, rfl⟩
    | cons c rest =>
      have hc : c.isDigit = false := hrest c rfl
      simp [hc]
  rw [takeDigits, List.takeWhile_append_of_pos h, List.dropWhile_append_of_pos h, htail.1, htail.2,
    List.append_nil]

theorem toLower_of_isDigit {c : Char} (h : c.isDigit) : c.toLower = c := by
  have hle : c.val ≤ '9'.val := by
    simp only [Char.isDigit, Bool.and_eq_true, decide_eq_true_eq] at h
    exact h.2
  unfold Char.toLower
  rw [dif_neg]
  rintro ⟨hge, -⟩
  exact absurd (UInt32.le_trans hge hle) (by decide)

structure PointNumeral where
  whole : List Char
  places : List Char
  nonempty : whole ≠ []
  digits : ∀ c ∈ whole ++ places, c.isDigit

namespace PointNumeral

variable {n : PointNumeral}

def text (n : PointNumeral) : List Char := n.whole ++ '.' :: n.places

def decimal (n : PointNumeral) : Decimal :=
  ⟨Nat.ofDigitChars 10 (n.whole ++ n.places) 0, -n.places.length⟩

theorem decimal?_text (n : PointNumeral) : decimal? n.text = some n.decimal := by
  have hwhole : takeDigits n.text = (n.whole, '.' :: n.places) :=
    takeDigits_append (fun c hc => n.digits c (List.mem_append_left _ hc)) (by simp)
  have hplaces : takeDigits n.places = (n.places, []) := by
    have hdigits : ∀ c ∈ n.places, c.isDigit := fun c hc => n.digits c (List.mem_append_right _ hc)
    rw [← takeDigits_append hdigits (by simp), List.append_nil]
  have hnatural : Text.natural? 10 (n.whole ++ n.places) =
      some (Nat.ofDigitChars 10 (n.whole ++ n.places) 0) := by
    rw [Text.natural?, Text.digits?_of_isDigit n.digits, if_neg]
    simp [n.nonempty]
  simp only [decimal?, hwhole, hplaces, hnatural, exponentPart?, decimal, Option.bind_some,
    Option.map_some, Int.zero_sub]

theorem exists_cons_of_text (n : PointNumeral) : ∃ c rest, n.text = c :: rest ∧ c.isDigit := by
  obtain ⟨c, rest, hwhole⟩ := List.exists_cons_of_ne_nil n.nonempty
  exact ⟨c, _, by rw [text, hwhole]; rfl, n.digits c (by simp [hwhole])⟩

/-- Digits are no word. -/
theorem ofList_map_toLower_ne (n : PointNumeral) (word : String)
    (h : word.toList.head?.map Char.isDigit ≠ some true) :
    String.ofList (n.text.map Char.toLower) ≠ word := by
  rintro rfl
  obtain ⟨c, rest, htext, hc⟩ := n.exists_cons_of_text
  apply h
  rw [String.toList_ofList, htext, List.map_cons, List.head?_cons, toLower_of_isDigit hc,
    Option.map_some, hc]

/-- A sign and a numeral are read as they stand. -/
theorem parse?_text (n : PointNumeral) (negative : Bool) :
    parse? ((if negative then ['-'] else []) ++ n.text) = some (ofDecimal negative n.decimal) := by
  have hinf := n.ofList_map_toLower_ne "inf" (by decide)
  have hinfinity := n.ofList_map_toLower_ne "infinity" (by decide)
  have hnan := n.ofList_map_toLower_ne "nan" (by decide)
  cases negative with
  | true =>
    simp only [if_true, List.singleton_append, parse?, hinf, hinfinity, hnan, or_self, if_false,
      n.decimal?_text, Option.map_some]
  | false =>
    obtain ⟨c, rest, htext, hc⟩ := n.exists_cons_of_text
    have hminus : ∀ cs, n.text ≠ '-' :: cs := by
      rintro cs h
      cases htext.symm.trans h
      cases hc
    have hplus : ∀ cs, n.text ≠ '+' :: cs := by
      rintro cs h
      cases htext.symm.trans h
      cases hc
    simp only [Bool.false_eq_true, if_false, List.nil_append, parse?, hinf, hinfinity, hnan,
      or_self,
      n.decimal?_text, Option.map_some]

/-- Digits without a point get one behind them, and a zero. -/
def pointed (cs : List Char) : List Char := if '.' ∈ cs then cs else cs ++ ['.', '0']

theorem pointed_of_isDigit {cs : List Char} (h : ∀ c ∈ cs, c.isDigit) :
    pointed cs = cs ++ ['.', '0'] := by
  refine if_neg fun hmem => ?_
  cases h '.' hmem

theorem isDigit_of_mem_zeros {k : Nat} {c : Char} (h : c ∈ List.replicate k '0') : c.isDigit := by
  rw [List.eq_of_mem_replicate h]
  rfl

theorem isDigit_of_mem_append {cs cs' : List Char} (h : ∀ c ∈ cs, c.isDigit)
    (h' : ∀ c ∈ cs', c.isDigit) : ∀ c ∈ cs ++ cs', c.isDigit :=
  fun c hc => (List.mem_append.1 hc).elim (h c) (h' c)

/-- Zeros behind the digits of a whole number count as powers. -/
theorem exists_of_zeros {cs : List Char} (hdigits : ∀ c ∈ cs, c.isDigit) (hne : cs ≠ []) (k : Nat) :
    ∃ n : PointNumeral, pointed (cs ++ List.replicate k '0') = n.text ∧
      n.decimal.value = Decimal.value ⟨Nat.ofDigitChars 10 cs 0, k⟩ := by
  have hwhole := isDigit_of_mem_append hdigits fun c hc => isDigit_of_mem_zeros (k := k) hc
  have hall := isDigit_of_mem_append hwhole fun c hc => isDigit_of_mem_zeros (k := 1) hc
  refine ⟨⟨cs ++ List.replicate k '0', List.replicate 1 '0', ?_, hall⟩, ?_, ?_⟩
  · simp [hne]
  · rw [pointed_of_isDigit hwhole]
    rfl
  · simp only [decimal, Decimal.value, Nat.ofDigitChars_append, Nat.ofDigitChars_replicate_zero,
      List.length_replicate]
    push_cast
    rw [zpow_natCast]
    field_simp

/-- The point stands in front of as many digits as there are places. -/
theorem exists_of_places {cs : List Char} (hdigits : ∀ c ∈ cs, c.isDigit) {k : Nat}
    (hk : k < cs.length) : ∃ n : PointNumeral,
      cs.take (cs.length - k) ++ '.' :: cs.drop (cs.length - k) = n.text ∧
      n.decimal.value = Decimal.value ⟨Nat.ofDigitChars 10 cs 0, -k⟩ := by
  have hsplit := List.take_append_drop (cs.length - k) cs
  have hwhole : cs.take (cs.length - k) ≠ [] := by
    rw [Ne, List.take_eq_nil_iff, not_or, ← List.length_eq_zero_iff]
    omega
  refine ⟨⟨_, cs.drop (cs.length - k), hwhole, hsplit.symm ▸ hdigits⟩, rfl, ?_⟩
  simp only [decimal, hsplit, List.length_drop, Nat.sub_sub_self (Nat.le_of_lt hk)]

/-- Positional notation writes the decimal. -/
theorem exists_of_positional (d : Decimal) :
    ∃ n : PointNumeral, pointed d.positional.toList = n.text ∧ n.decimal.value = d.value := by
  rcases d with ⟨digits, power⟩
  unfold Decimal.positional
  dsimp only
  generalize hcs : (Nat.repr digits).toList = cs
  have hdigits : ∀ c ∈ cs, c.isDigit := fun c hc => Text.isDigit_of_mem_repr (hcs ▸ hc)
  have hvalue : Nat.ofDigitChars 10 cs 0 = digits := by
    rw [← hcs, Nat.toList_repr, Nat.ofDigitChars_ten_toDigits]
  split
  · rename_i hpower
    obtain ⟨n, htext, hn⟩ := exists_of_zeros hdigits (hcs ▸ Text.repr_ne_nil digits) power.toNat
    refine ⟨n, ?_, ?_⟩
    · rw [String.toList_ofList, htext]
    · rw [hn, hvalue, Int.toNat_of_nonneg hpower]
  · rename_i hpower
    generalize hzeros : List.replicate ((-power).toNat + 1 - cs.length) '0' = zeros
    -- The zeros in front see to it that a digit stands in front of the point.
    have hlength : (-power).toNat < (zeros ++ cs).length := by
      rw [List.length_append, ← hzeros, List.length_replicate]
      omega
    have hpadded : Nat.ofDigitChars 10 (zeros ++ cs) 0 = digits := by
      rw [Nat.ofDigitChars_append, ← hzeros, Nat.ofDigitChars_replicate_zero, Nat.mul_zero, hvalue]
    have hall : ∀ c ∈ zeros ++ cs, c.isDigit :=
      isDigit_of_mem_append (fun c hc => isDigit_of_mem_zeros (hzeros ▸ hc)) hdigits
    obtain ⟨n, htext, hn⟩ := exists_of_places hall hlength
    refine ⟨n, ?_, ?_⟩
    · rw [String.toList_ofList, ← htext]
      exact if_pos (List.mem_append_right _ List.mem_cons_self)
    · rw [hn, hpadded, Int.toNat_of_nonneg (by omega), Int.neg_neg]

end PointNumeral

/-! ## Texts -/

def sign (negative : Bool) : List Char := if negative then ['-'] else []

theorem toList_sign (negative : Bool) : (if negative then "-" else "").toList = sign negative := by
  cases negative <;> rfl

theorem eq_zero_of_isZero (h : x.isZero = true) : x = zero x.negative := by
  have hx := withSign_magnitudeBits x
  rw [isZero_iff.1 h] at hx
  exact hx.symm

theorem eq_infinity_of_isInfinite (h : x.isInfinite = true) : x = infinity x.negative := by
  have hx := withSign_magnitudeBits x
  have hbits : x.magnitudeBits = 0x7F800000 := by
    rw [isInfinite, Bool.and_eq_true, decide_eq_true_eq, decide_eq_true_eq] at h
    rw [magnitudeBits_eq_fields, h.1, h.2]
  rw [hbits] at hx
  exact hx.symm

/-- The text of a finite number is a sign and a decimal that is rounded to the number. -/
theorem exists_of_toText (hfinite : x.isFinite = true) : ∃ d : Decimal,
    x.toText.toList = sign x.negative ++ d.positional.toList ∧ ofDecimal x.negative d = x := by
  have hnan := isNaN_eq_false_of_isFinite hfinite
  have hinfinite : x.isInfinite = false := by
    have hexponent : ¬x.exponent = 255 := of_decide_eq_true hfinite
    simp [isInfinite, hexponent]
  unfold toText
  simp only [hnan, hinfinite, Bool.false_eq_true, if_false]
  split
  · rename_i hzero
    refine ⟨⟨0, 0⟩, ?_, ?_⟩
    · rw [String.toList_append, toList_sign]
      rfl
    · rw [ofDecimal_of_digits_eq_zero rfl]
      exact (eq_zero_of_isZero hzero).symm
  · rename_i hzero
    refine ⟨x.shortest, ?_, ofDecimal_shortest hfinite (by simpa using hzero)⟩
    rw [String.toList_append, toList_sign]

/-- The text of a finite number with a point is a sign and a numeral that is rounded to the
number. -/
theorem exists_of_toPointText (hfinite : x.isFinite = true) : ∃ n : PointNumeral,
    x.toPointText.toList = sign x.negative ++ n.text ∧ ofDecimal x.negative n.decimal = x := by
  obtain ⟨d, htext, hd⟩ := exists_of_toText hfinite
  obtain ⟨n, hn, hvalue⟩ := PointNumeral.exists_of_positional d
  refine ⟨n, ?_, (ofDecimal_eq_of_value_eq hvalue).trans hd⟩
  have hsign : '.' ∉ sign x.negative := by
    unfold sign
    split <;> simp
  have hcontains : x.toText.toList.contains '.' = true ↔ '.' ∈ d.positional.toList := by
    rw [htext, List.contains_iff_mem, List.mem_append, or_iff_right hsign]
  unfold PointNumeral.pointed at hn
  unfold toPointText
  dsimp only
  rw [← hn, hfinite, Bool.true_and]
  by_cases hpoint : '.' ∈ d.positional.toList
  · rw [hcontains.2 hpoint, if_pos hpoint]
    exact htext
  · have hnone : (!x.toText.toList.contains '.') = true := by
      rw [Bool.not_eq_true', Bool.eq_false_iff, Ne, hcontains]
      exact hpoint
    rw [if_pos hnone, if_neg hpoint, String.toList_append, htext, List.append_assoc]
    rfl

/-- The text of what is no finite number. -/
theorem toPointText_of_not_isFinite (h : ¬x.isFinite = true) :
    x.toPointText.toList = if x.isNaN then "NaN".toList else sign x.negative ++ "inf".toList := by
  have hpoint : x.toPointText = x.toText := by simp [toPointText, h]
  rw [hpoint, toText]
  by_cases hnan : x.isNaN = true
  · rw [if_pos hnan, if_pos hnan]
  · have hinfinite : x.isInfinite = true := by simp_all [isFinite, isNaN, isInfinite]
    rw [if_neg hnan, if_neg hnan, if_pos hinfinite, String.toList_append, toList_sign]

/-- The text of a number is read back as the number, but all NaNs as one. -/
theorem parse?_toPointText (x : Binary32) :
    parse? x.toPointText.toList = some (if x.isNaN then nan else x) := by
  by_cases hfinite : x.isFinite = true
  · obtain ⟨n, htext, hn⟩ := exists_of_toPointText hfinite
    have hread := n.parse?_text x.negative
    rw [hn, ← sign, ← htext] at hread
    rw [hread, isNaN_eq_false_of_isFinite hfinite]
    rfl
  · rw [toPointText_of_not_isFinite hfinite]
    by_cases hnan : x.isNaN = true
    · rw [if_pos hnan, if_pos hnan]
      rfl
    · have hinfinite : x.isInfinite = true := by simp_all [isFinite, isNaN, isInfinite]
      rw [if_neg hnan, if_neg hnan]
      conv_rhs => rw [eq_infinity_of_isInfinite hinfinite]
      cases x.negative <;> rfl

theorem mem_toPointText {c : Char} (h : c ∈ x.toPointText.toList) :
    c.isDigit ∨ c ∈ ".-infNa".toList := by
  have hsign : ∀ c ∈ sign x.negative, c.isDigit ∨ c ∈ ".-infNa".toList := by
    cases x.negative <;> simp [sign]
  by_cases hfinite : x.isFinite = true
  · obtain ⟨n, htext, -⟩ := exists_of_toPointText hfinite
    rw [htext, PointNumeral.text] at h
    simp only [List.mem_append, List.mem_cons] at h
    rcases h with h | h | rfl | h
    · exact hsign c h
    · exact .inl (n.digits c (List.mem_append_left _ h))
    · exact .inr (by decide)
    · exact .inl (n.digits c (List.mem_append_right _ h))
  · have hinf : ∀ c ∈ "inf".toList, c ∈ ".-infNa".toList := by simp
    have hnan : ∀ c ∈ "NaN".toList, c ∈ ".-infNa".toList := by simp
    rw [toPointText_of_not_isFinite hfinite] at h
    split at h
    · exact .inr (hnan c h)
    · rcases List.mem_append.1 h with h | h
      · exact hsign c h
      · exact .inr (hinf c h)

/-! ## NaNs -/

theorem isNaN_ofDecimal (negative : Bool) (d : Decimal) : (ofDecimal negative d).isNaN = false := by
  have hzero : (zero negative).isNaN = false := by cases negative <;> rfl
  have hinfinity : (infinity negative).isNaN = false := by cases negative <;> rfl
  simp only [ofDecimal]
  split_ifs
  · exact hzero
  · exact hinfinity
  · exact isNaN_ofRatio _ _ _
  · exact isNaN_ofRatio _ _ _

theorem eq_of_toLower_eq_minus {c : Char} (h : c.toLower = '-') : c = '-' := by
  unfold Char.toLower at h
  split at h
  · rename_i hupper
    -- What is lowered comes out as a letter.
    have hval : (c.val + ('a'.val - 'A'.val)).toNat = 45 := congrArg (fun c => c.val.toNat) h
    have hge : 65 ≤ c.val.toNat := UInt32.le_iff_toNat_le.1 hupper.1
    have hle : c.val.toNat ≤ 90 := UInt32.le_iff_toNat_le.1 hupper.2
    have hshift : ('a'.val - 'A'.val).toNat = 32 := rfl
    rw [UInt32.toNat_add, hshift] at hval
    omega
  · exact h

/-- The only texts that are read as a NaN other than the one that is written. -/
theorem isNaN_and_ne_nan_iff {cs : List Char} (h : parse? cs = some x) :
    (x.isNaN = true ∧ x ≠ nan) ↔ cs.map Char.toLower = "-nan".toList := by
  unfold parse? at h
  split at h
  rename_i negative body hsplit
  have hword : String.ofList (body.map Char.toLower) = "nan" ↔
      body.map Char.toLower = "nan".toList := by
    rw [← String.toList_inj, String.toList_ofList]
  have hsign : negative = true ∧ body.map Char.toLower = "nan".toList ↔
      cs.map Char.toLower = "-nan".toList := by
    split at hsplit
    · cases hsplit
      simp
    · cases hsplit
      simp
    · rename_i hminus hplus
      cases hsplit
      refine iff_of_false (fun h => Bool.false_ne_true h.1) fun hlower => ?_
      obtain ⟨c, rest, rfl, hc, -⟩ := List.map_eq_cons_iff.1 hlower
      exact hminus rest (eq_of_toLower_eq_minus hc ▸ rfl)
  rw [← hsign, ← hword]
  have hinfinity : (infinity negative).isNaN = false := by cases negative <;> rfl
  dsimp only at h
  split_ifs at h with hinf hnan
  · obtain rfl := Option.some.inj h
    rcases hinf with hinf | hinf <;> simp [hinf, hinfinity]
  · obtain rfl := Option.some.inj h
    rw [and_iff_left hnan]
    cases negative <;> decide
  · obtain ⟨d, -, rfl⟩ := Option.map_eq_some_iff.1 h
    simp [isNaN_ofDecimal, hnan]

end Binary32

end CellMachine
