import CellMachine.Cell
import CellMachine.Proofs.Bytes

/-!
# Numbers in cells

This module proves how cells are read as numbers. The unsigned reading depends on the number of a
byte string alone, whatever its length: it fails exactly if the number is not that of a word. The
signed reading depends on the length as well, which says where the sign bit is. Writing gives four
bytes, so it undoes reading where four bytes have been read.
-/

namespace CellMachine.Cell

open Bytes

variable {x : Bytes} {v : UInt32} {n : Int32}

/-! ## Unsigned numbers -/

theorem uint_eq (x : Bytes) :
    uint x =
      if toNat x < 2 ^ 32 then .ok (UInt32.ofNat (toNat x)) else .error (.uint x.length) := by
  obtain ⟨hexcess, htail⟩ := toNat_split x
  have hany : (x.take (x.length - 4)).any (· != 0) = true ↔ ¬toNat x < 2 ^ 32 := by
    have hzero : toNat (x.take (x.length - 4)) = 0 ↔ toNat x < 2 ^ 32 := by omega
    rw [← hzero, toNat_eq_zero_iff]
    simp
  have hword : toWord (x.drop (x.length - 4)) = UInt32.ofNat (toNat x) := by
    apply UInt32.toNat_inj.1
    rw [toNat_toWord, htail, UInt32.toNat_ofNat', Nat.mod_mod]
  rw [uint, hword]
  by_cases h : toNat x < 2 ^ 32
  · rw [if_pos h]
    exact if_neg fun hnot => hany.1 hnot h
  · rw [if_neg h]
    exact if_pos (hany.2 h)

theorem uint_eq_ok_iff : uint x = .ok v ↔ toNat x = v.toNat := by
  have hv : v.toNat < 2 ^ 32 := v.toNat_lt
  rw [uint_eq]
  split
  · rename_i h
    rw [Except.ok.injEq, ← UInt32.toNat_inj, UInt32.toNat_ofNat_of_lt' h]
  · rename_i h
    exact ⟨nofun, fun heq => absurd (heq ▸ hv) h⟩

theorem exists_uint_iff : (∃ v, uint x = .ok v) ↔ toNat x < 2 ^ 32 := by
  simp only [uint_eq_ok_iff]
  constructor
  · rintro ⟨v, hv⟩
    rw [hv]
    exact v.toNat_lt
  · intro h
    exact ⟨UInt32.ofNat (toNat x), (UInt32.toNat_ofNat_of_lt' h).symm⟩

@[simp] theorem uint_ofUint (v : UInt32) : uint (ofUint v) = .ok v :=
  uint_eq_ok_iff.2 (toNat_ofWord v)

theorem ofUint_eq_iff (h : uint x = .ok v) : ofUint v = x ↔ x.length = 4 := by
  constructor
  · rintro rfl
    rfl
  · intro hx
    exact eq_of_toNat_eq hx.symm ((toNat_ofWord v).trans (uint_eq_ok_iff.1 h).symm)

/-! ## Signed numbers -/

theorem toInt_eq_bmod (n : Int32) : n.toInt = (n.toUInt32.toNat : Int).bmod (2 ^ 32) :=
  BitVec.toInt_eq_toNat_bmod n.toBitVec

/-- The words that are signed numbers as well are those below the sign bit. -/
theorem toInt_toInt32 {v : UInt32} :
    v.toInt32.toInt = if v.toNat < 2 ^ 31 then (v.toNat : Int) else v.toNat - 2 ^ 32 := by
  have hv : v.toNat < 2 ^ 32 := v.toNat_lt
  have hmod : v.toInt32.toInt = (v.toNat : Int).bmod (2 ^ 32) := toInt_eq_bmod v.toInt32
  rw [hmod, Int.bmod_def, Int.emod_eq_of_lt (Int.natCast_nonneg _) (by omega)]
  split <;> split <;> omega

/-- The sign is extended from the width of the byte string. -/
theorem toInt_ofInt_toInt (h : x.length ≤ 4) :
    (Int32.ofInt x.toInt).toInt = (toNat x : Int).bmod (256 ^ x.length) := by
  have hpow : 256 ^ x.length ≤ 256 ^ 4 := Nat.pow_le_pow_right (by decide) h
  have hpos : 0 < 256 ^ x.length := Nat.pow_pos (by decide)
  have hlow := Int.le_bmod (x := toNat x) hpos
  have hhigh := Int.bmod_lt (x := toNat x) hpos
  rw [Bytes.toInt_eq_bmod]
  exact Int32.toInt_ofInt_of_le (by omega) (by omega)

theorem sint_eq (x : Bytes) :
    sint x = if 1 ≤ x.length ∧ x.length ≤ 4 then .ok (Int32.ofInt x.toInt)
      else .error (.sint x.length) := by
  have hrefused : (x.isEmpty || decide (4 < x.length)) = true ↔ ¬(1 ≤ x.length ∧ x.length ≤ 4) := by
    rw [Bool.or_eq_true, decide_eq_true_eq, List.isEmpty_iff, ← List.length_eq_zero_iff]
    omega
  unfold sint
  simp only [hrefused]
  exact ite_not _ _ _

theorem sint_eq_ok_iff : sint x = .ok n ↔
    (1 ≤ x.length ∧ x.length ≤ 4) ∧ n.toInt = (toNat x : Int).bmod (256 ^ x.length) := by
  rw [sint_eq]
  split
  · rename_i h
    rw [Except.ok.injEq, ← Int32.toInt_inj, toInt_ofInt_toInt h.2, eq_comm]
    exact (and_iff_right h).symm
  · rename_i h
    exact ⟨nofun, fun hn => absurd hn.1 h⟩

theorem exists_sint_iff : (∃ n, sint x = .ok n) ↔ 1 ≤ x.length ∧ x.length ≤ 4 := by
  simp only [sint_eq_ok_iff]
  constructor
  · rintro ⟨n, h, -⟩
    exact h
  · intro h
    exact ⟨_, h, toInt_ofInt_toInt h.2⟩

@[simp] theorem sint_ofSint (n : Int32) : sint (ofSint n) = .ok n := by
  have hlength : (ofSint n).length = 4 := rfl
  rw [sint_eq_ok_iff, hlength, ofSint, toNat_ofWord]
  exact ⟨by decide, toInt_eq_bmod n⟩

theorem ofSint_eq_iff (h : sint x = .ok n) : ofSint n = x ↔ x.length = 4 := by
  constructor
  · rintro rfl
    rfl
  · intro hx
    obtain ⟨-, hn⟩ := sint_eq_ok_iff.1 h
    have hless : toNat x < 2 ^ 32 := by simpa [hx] using toNat_lt x
    have hword : n.toUInt32.toNat < 2 ^ 32 := n.toUInt32.toNat_lt
    -- Numbers of words that are congruent modulo the words are the same.
    have hcongruent :
        (n.toUInt32.toNat : Int) % (2 ^ 32 : Nat) = (toNat x : Int) % (2 ^ 32 : Nat) := by
      rw [← Int.bmod_emod, ← toInt_eq_bmod, hn, hx, ← Int.bmod_emod (x := toNat x)]
      rfl
    refine eq_of_toNat_eq hx.symm ?_
    rw [ofSint, toNat_ofWord]
    omega

end CellMachine.Cell
