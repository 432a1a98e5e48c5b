import CellMachine.Bytes
import Mathlib.Data.List.Induction
import Mathlib.Tactic.Ring

/-!
# Numbers in byte strings

This module relates the readings of a byte string: the natural number `Bytes.toNat`, of which the
word `Bytes.toWord` is the remainder modulo `2 ^ 32`, and the four bytes of a word, which are the
inverse of `Bytes.toWord` on byte strings of length four. The integer `Bytes.toInt` is congruent to
the number modulo the numbers of the same width. A byte string of a known length is determined by
its number, and so is the shortest one of a number, which `Bytes.ofNat` finds.
-/

namespace CellMachine
namespace Bytes

/-! ## Natural numbers -/

theorem toNat_concat (bs : Bytes) (b : UInt8) : toNat (bs ++ [b]) = 256 * toNat bs + b.toNat := by
  simp [toNat]

theorem toNat_lt (bs : Bytes) : toNat bs < 256 ^ bs.length := by
  induction bs using List.reverseRecOn with
  | nil => simp [toNat]
  | append_singleton bs b ih =>
    have hb : b.toNat < 256 := b.toNat_lt
    rw [toNat_concat, List.length_append, pow_add]
    simp
    omega

/-! ## Words -/

/-- One step of reading a word: what overflows is lost. -/
theorem toNat_shiftLeft_or (w : UInt32) (b : UInt8) :
    (w <<< 8 ||| b.toUInt32).toNat = (256 * w.toNat + b.toNat) % 2 ^ 32 := by
  have hb : b.toNat < 2 ^ 8 := b.toNat_lt
  have hshift : w.toNat <<< ((8 : UInt32).toNat % 32) % 2 ^ 32 = (w.toNat % 2 ^ 24) <<< 8 := by
    simp [Nat.shiftLeft_eq]
    omega
  rw [UInt32.toNat_or, UInt32.toNat_shiftLeft, UInt8.toNat_toUInt32, hshift,
    ← Nat.shiftLeft_add_eq_or_of_lt hb, Nat.shiftLeft_eq]
  omega

theorem toNat_toWord (bs : Bytes) : (toWord bs).toNat = toNat bs % 2 ^ 32 := by
  induction bs using List.reverseRecOn with
  | nil => simp [toWord, toNat]
  | append_singleton bs b ih =>
    have hstep : toWord (bs ++ [b]) = toWord bs <<< 8 ||| b.toUInt32 := by simp [toWord]
    rw [hstep, toNat_shiftLeft_or, ih, toNat_concat]
    omega

theorem toNat_ofWord (w : UInt32) : toNat (ofWord w) = w.toNat := by
  have hw : w.toNat < 2 ^ 32 := w.toNat_lt
  simp [toNat, ofWord, Nat.shiftRight_eq_div_pow]
  omega

@[simp] theorem toWord_ofWord (w : UInt32) : toWord (ofWord w) = w := by
  apply UInt32.toNat_inj.1
  rw [toNat_toWord, toNat_ofWord]
  exact Nat.mod_eq_of_lt w.toNat_lt

theorem eq_of_toNat_eq {a b : Bytes} (hlen : a.length = b.length) (h : toNat a = toNat b) :
    a = b := by
  induction a using List.reverseRecOn generalizing b with
  | nil => simpa [eq_comm] using hlen
  | append_singleton a x ih =>
    rcases b.eq_nil_or_concat with rfl | ⟨b, y, rfl⟩
    · simp at hlen
    · have hx : x.toNat < 256 := x.toNat_lt
      have hy : y.toNat < 256 := y.toNat_lt
      simp only [List.concat_eq_append, toNat_concat] at h
      have hxy : x = y := UInt8.toNat_inj.1 (by omega)
      rw [ih (by simpa using hlen) (by omega), hxy, List.concat_eq_append]

theorem ofWord_toWord {bs : Bytes} (h : bs.length = 4) : ofWord (toWord bs) = bs := by
  apply eq_of_toNat_eq (by simp [h])
  have hlt : toNat bs < 2 ^ 32 := by simpa [h] using toNat_lt bs
  rw [toNat_ofWord, toNat_toWord, Nat.mod_eq_of_lt hlt]

/-! ## Parts -/

theorem toNat_cons (b : UInt8) (bs : Bytes) :
    toNat (b :: bs) = b.toNat * 256 ^ bs.length + toNat bs := by
  induction bs using List.reverseRecOn with
  | nil => simp [toNat]
  | append_singleton bs x ih =>
    rw [← List.cons_append, toNat_concat, toNat_concat, ih, List.length_append,
      List.length_singleton]
    ring

theorem toNat_append (a b : Bytes) : toNat (a ++ b) = toNat a * 256 ^ b.length + toNat b := by
  induction a with
  | nil => simp [toNat]
  | cons x a ih =>
    rw [List.cons_append, toNat_cons, ih, toNat_cons, List.length_append, pow_add]
    ring

theorem toNat_eq_zero_iff {bs : Bytes} : toNat bs = 0 ↔ ∀ b ∈ bs, b = 0 := by
  induction bs with
  | nil => simp [toNat]
  | cons b bs ih =>
    have hb : b.toNat = 0 ↔ b = 0 := UInt8.toNat_inj (b := 0)
    simp [toNat_cons, ih, hb]

/-- The last four bytes are the number modulo the words, and the bytes in front are the quotient. -/
theorem toNat_split (bs : Bytes) :
    toNat (bs.take (bs.length - 4)) = toNat bs / 2 ^ 32 ∧
      toNat (bs.drop (bs.length - 4)) = toNat bs % 2 ^ 32 := by
  have hparts := toNat_append (bs.take (bs.length - 4)) (bs.drop (bs.length - 4))
  have hless := toNat_lt (bs.drop (bs.length - 4))
  rw [List.take_append_drop] at hparts
  rw [List.length_drop] at hparts hless
  by_cases hlong : 4 ≤ bs.length
  · have hfour : bs.length - (bs.length - 4) = 4 := by omega
    rw [hfour] at hparts hless
    omega
  · have hnone : bs.length - 4 = 0 := by omega
    have hpow : 256 ^ (bs.length - (bs.length - 4)) ≤ 256 ^ 4 :=
      Nat.pow_le_pow_right (by decide) (by omega)
    have hzero : toNat (bs.take (bs.length - 4)) = 0 := by
      rw [hnone]
      rfl
    rw [hzero] at hparts ⊢
    omega

/-! ## Integers -/

/-- A byte string is the integer congruent to its number that is nearest to zero, and the negative
one of two. -/
theorem toInt_eq_bmod (bs : Bytes) : bs.toInt = (bs.toNat : Int).bmod (256 ^ bs.length) := by
  cases bs with
  | nil => rfl
  | cons b bs =>
    have hless : toNat (b :: bs) < 256 ^ (b :: bs).length := toNat_lt (b :: bs)
    have hrest : toNat bs < 256 ^ bs.length := toNat_lt bs
    have hpow : 256 ^ (b :: bs).length = 256 * 256 ^ bs.length := pow_succ' 256 bs.length
    have hnumber := toNat_cons b bs
    rw [toInt, Int.bmod_def, Int.emod_eq_of_lt (Int.natCast_nonneg _) (by exact_mod_cast hless)]
    -- The first byte tells in which half of the numbers of this width the number is.
    by_cases hb : b < 128
    · have hsmall : b.toNat * 256 ^ bs.length ≤ 127 * 256 ^ bs.length :=
        Nat.mul_le_mul_right _ (Nat.le_of_lt_succ (UInt8.lt_iff_toNat_lt.1 hb))
      rw [if_pos hb, if_pos (by omega)]
    · have hgreat : 128 * 256 ^ bs.length ≤ b.toNat * 256 ^ bs.length :=
        Nat.mul_le_mul_right _ (Nat.le_of_not_lt fun h => hb (UInt8.lt_iff_toNat_lt.2 h))
      rw [if_neg hb, if_neg (by omega)]
      rfl

/-! ## Shortest byte strings -/

/-- No byte string of the same number is shorter but the empty one. -/
def IsShortest (bs : Bytes) : Prop :=
  bs ≠ [] ∧ ∀ cs : Bytes, cs ≠ [] → toNat cs = toNat bs → bs.length ≤ cs.length

theorem isShortest_zero : IsShortest [0] :=
  ⟨List.cons_ne_nil _ _, fun _ hcs _ => List.length_pos_iff.2 hcs⟩

theorem isShortest_cons {b : UInt8} (hb : b ≠ 0) (bs : Bytes) : IsShortest (b :: bs) := by
  refine ⟨List.cons_ne_nil _ _, fun cs _ hcs => Nat.lt_of_not_le fun hlength => ?_⟩
  have hpos : 0 < b.toNat := Nat.pos_of_ne_zero fun h => hb (UInt8.toNat_inj.1 h)
  have hless : toNat cs < toNat (b :: bs) :=
    calc toNat cs < 256 ^ cs.length := toNat_lt cs
      _ ≤ 256 ^ bs.length := Nat.pow_le_pow_right (by decide) hlength
      _ ≤ b.toNat * 256 ^ bs.length := Nat.le_mul_of_pos_left _ hpos
      _ ≤ toNat (b :: bs) := by
        rw [toNat_cons]
        exact Nat.le_add_right _ _
  omega

/-- The shortest byte strings are those without a zero byte in front, and the single zero byte. -/
theorem isShortest_iff {bs : Bytes} : IsShortest bs ↔ bs ≠ [] ∧ (bs.head? = some 0 → bs = [0]) := by
  cases bs with
  | nil => simp [IsShortest]
  | cons b bs =>
    simp only [ne_eq, List.cons_ne_nil, not_false_eq_true, true_and, List.head?_cons,
      Option.some.injEq]
    constructor
    · rintro ⟨-, hshortest⟩ rfl
      by_contra hne
      have hbs : bs ≠ [] := fun h => hne (by rw [h])
      have hlength := hshortest bs hbs (by simp [toNat_cons])
      rw [List.length_cons] at hlength
      omega
    · intro h
      by_cases hb : b = 0
      · rw [h hb]
        exact isShortest_zero
      · exact isShortest_cons hb bs

/-- A number has one shortest byte string. -/
theorem IsShortest.eq {a b : Bytes} (ha : IsShortest a) (hb : IsShortest b)
    (h : toNat a = toNat b) : a = b :=
  eq_of_toNat_eq (Nat.le_antisymm (ha.2 b hb.1 h.symm) (hb.2 a ha.1 h)) h

theorem toNat_digits (n : Nat) (tail : Bytes) :
    toNat (digits n tail) = n * 256 ^ tail.length + toNat tail := by
  induction n, tail using digits.induct with
  | case1 tail => simp [digits]
  | case2 n tail hn ih =>
    rw [digits, dif_neg hn, ih, toNat_cons, List.length_cons, UInt8.toNat_ofNat']
    have hparts : n / 256 * 256 + n % 2 ^ 8 = n := Nat.div_add_mod' n 256
    calc n / 256 * 256 ^ (tail.length + 1) + (n % 2 ^ 8 * 256 ^ tail.length + toNat tail)
      _ = (n / 256 * 256 + n % 2 ^ 8) * 256 ^ tail.length + toNat tail := by ring
      _ = n * 256 ^ tail.length + toNat tail := by rw [hparts]

theorem isShortest_digits (n : Nat) (tail : Bytes) (hn : n ≠ 0) : IsShortest (digits n tail) := by
  induction n, tail using digits.induct with
  | case1 tail => exact absurd rfl hn
  | case2 n tail _ ih =>
    rw [digits, dif_neg hn]
    by_cases hfirst : n / 256 = 0
    · -- The last digit to be put in front is the only one that is known not to be zero.
      rw [hfirst, digits, dif_pos rfl]
      refine isShortest_cons (fun h => hn ?_) tail
      have hzero := congrArg UInt8.toNat h
      rw [UInt8.toNat_ofNat'] at hzero
      change n % 256 = 0 at hzero
      omega
    · exact ih hfirst

@[simp] theorem toNat_ofNat (n : Nat) : toNat (ofNat n) = n := by
  unfold ofNat
  split
  · rename_i hn
    exact hn.symm
  · rw [toNat_digits]
    simp [toNat]

theorem isShortest_ofNat (n : Nat) : IsShortest (ofNat n) := by
  unfold ofNat
  split
  · exact isShortest_zero
  · rename_i hn
    exact isShortest_digits n [] hn

end Bytes
end CellMachine
