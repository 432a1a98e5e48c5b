import CellMachine.Proofs.Text.Utf8

/-!
# The order of texts and of their bytes

This module proves that UTF-8 keeps the order: one text comes before another one if and only if its
bytes do. The first byte of a character tells how many bytes it has, and wider characters are the
greater ones; characters of one width differ as their bytes do.
-/

namespace CellMachine.Text

theorem toNat_lt (c : Char) : c.val.toNat < 0x110000 := by
  rcases c.valid with h | h
  · exact Nat.lt_trans h (by decide)
  · exact h.2

/-- The bytes of a lesser character come first, whatever is behind them. -/
theorem utf8EncodeChar_append_lt {c d : Char} (h : c < d) (x y : Bytes) :
    String.utf8EncodeChar c ++ x < String.utf8EncodeChar d ++ y := by
  have hlt : c.val.toNat < d.val.toNat := UInt32.lt_iff_toNat_lt.1 h
  have hc := toNat_lt c
  have hd := toNat_lt d
  simp only [String.utf8EncodeChar]
  -- Every pair of widths is a case. Where the first one is the wider one, `hlt` fails.
  split_ifs
  all_goals
    simp (disch := omega) only [List.cons_append, List.nil_append, List.cons_lt_cons_iff,
      UInt8.lt_iff_toNat_lt, ← UInt8.toNat_inj, UInt8.toNat_ofNat', Nat.mod_eq_of_lt]
    omega

theorem flatMap_utf8EncodeChar_lt {cs ds : List Char} (h : cs < ds) :
    cs.flatMap String.utf8EncodeChar < ds.flatMap String.utf8EncodeChar := by
  induction cs generalizing ds with
  | nil =>
    cases ds with
    | nil => exact absurd h (List.lt_irrefl _)
    | cons d ds =>
      have hne : (d :: ds).flatMap String.utf8EncodeChar ≠ [] := by simp
      obtain ⟨b, bytes, hbytes⟩ := List.exists_cons_of_ne_nil hne
      rw [hbytes]
      exact List.nil_lt_cons _ _
  | cons c cs ih =>
    cases ds with
    | nil => exact absurd h (List.not_lt_nil _)
    | cons d ds =>
      rw [List.flatMap_cons, List.flatMap_cons]
      rcases List.cons_lt_cons_iff.1 h with hlt | ⟨rfl, hlt⟩
      · exact utf8EncodeChar_append_lt hlt _ _
      · exact List.append_left_lt (ih hlt)

theorem encode_lt_encode {s t : String} (h : s < t) : encode s < encode t := by
  have hlt := flatMap_utf8EncodeChar_lt (String.lt_iff.1 h)
  rwa [← encode_ofList, ← encode_ofList, String.ofList_toList, String.ofList_toList] at hlt

/-- Texts are in the order that their bytes are in. -/
theorem encode_lt_encode_iff {s t : String} : encode s < encode t ↔ s < t := by
  refine ⟨fun h => ?_, encode_lt_encode⟩
  rcases Std.lt_trichotomy s t with hlt | rfl | hgt
  · exact hlt
  · exact absurd h (List.lt_irrefl _)
  · exact absurd (encode_lt_encode hgt) (List.lt_asymm h)

theorem compare_eq_lt_iff {s t : String} : compare s t = .lt ↔ encode s < encode t := by
  rw [encode_lt_encode_iff]
  exact compareOfLessAndEq_eq_lt

end CellMachine.Text
