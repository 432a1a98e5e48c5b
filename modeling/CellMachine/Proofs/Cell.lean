import CellMachine.Cell
import CellMachine.Proofs.Text.Blank
import CellMachine.Proofs.Text.Fields
import CellMachine.Proofs.Text.Numeral
import CellMachine.Proofs.Text.Utf8

/-!
# Byte lists and printable bytes

This module proves that the list of a byte string is read back as the byte string. A list is cut at
its commas, so this rests on numerals having none; that numerals also have no white space makes
trimming them idle. Printable bytes are text.
-/

namespace CellMachine

namespace Cell

theorem byteList?_byteList (bytes : Bytes) : byteList? (byteList bytes).toList = some bytes := by
  rw [byteList, String.toList_ofList]
  cases bytes with
  | nil => rfl
  | cons b bs =>
    -- The fields are the numerals again, since no numeral has a comma.
    have hcomma : ∀ part ∈ (b :: bs).map fun b => (Nat.repr b.toNat).toList, ',' ∉ part := by
      intro part hpart hmem
      obtain ⟨x, -, rfl⟩ := List.mem_map.1 hpart
      exact absurd (Text.isDigit_of_mem_repr hmem) (by decide)
    have hbyte : (fun part => Text.byte? (Text.trim part)) ∘
        (fun b : UInt8 => (Nat.repr b.toNat).toList) = some := by
      funext x
      rw [Function.comp,
        Text.trim_eq_self fun c hc => Text.isBlank_of_isDigit (Text.isDigit_of_mem_repr hc),
        Text.byte?_repr]
    have hnonempty : (Text.joined ',' ((b :: bs).map fun b => (Nat.repr b.toNat).toList)).isEmpty =
        false := by
      cases bs <;> simp [Text.joined]
    rw [byteList?, hnonempty, if_neg Bool.false_ne_true,
      Text.fields_joined (by simp) hcomma, List.mapM_map, hbyte]
    exact (List.mapM_pure (f := id)).trans (congrArg some (List.map_id _))

theorem isSome_decode?_of_isPrintable {bytes : Bytes} (h : isPrintable bytes) :
    (Text.decode? bytes).isSome := by
  have hascii : ∀ b ∈ bytes, b.toNat < 0x80 := by
    intro b hb
    have hprintable : isPrintableByte b := List.all_eq_true.1 h b hb
    simp [isPrintableByte, UInt8.le_iff_toNat_le] at hprintable
    omega
  rw [← Text.encode_ascii hascii, Text.decode?_encode]
  rfl

end Cell

end CellMachine
