import CellMachine.Cell
import CellMachine.Proofs.Text.Blank
import CellMachine.Proofs.Text.Numeral

/-!
# Numerals in texts

This module proves which texts are parsed as integers, and as which ones: a numeral with white space
around it, whose value is within the bounds of the type. Every other text is refused, with an error
that shows the text as it is.
-/

namespace CellMachine

namespace Text

variable {cs : List Char} {v : UInt32}

/-! ## Numerals without white space -/

theorem Spells.not_blank {n : Nat} (h : Spells cs n) : ∀ c ∈ cs, isBlank c = false :=
  fun c hc => isBlank_of_isDigit (h.2.1 c hc)

theorem SpellsUnsigned.not_blank {n : Nat} (h : SpellsUnsigned cs n) :
    ∀ c ∈ cs, isBlank c = false := by
  obtain ⟨ds, rfl | rfl, hds⟩ := h
  · exact hds.not_blank
  · exact List.forall_mem_cons.2 ⟨by decide, hds.not_blank⟩

theorem SpellsSigned.not_blank {n : Int} (h : SpellsSigned cs n) :
    ∀ c ∈ cs, isBlank c = false := by
  obtain ⟨k, hk, -⟩ | ⟨ds, k, rfl, hds, -⟩ := h
  · exact hk.not_blank
  · exact List.forall_mem_cons.2 ⟨by decide, hds.not_blank⟩

theorem word?_eq_some_iff : word? cs = some v ↔ SpellsUnsigned cs v.toNat := by
  have hv : v.toNat < UInt32.size := v.toNat_lt
  simp only [word?, Option.map_eq_some_iff, unsigned?_eq_some_iff]
  constructor
  · rintro ⟨n, ⟨hn, hless⟩, rfl⟩
    rwa [UInt32.toNat_ofNat_of_lt' hless]
  · intro h
    exact ⟨v.toNat, ⟨h, hv⟩, UInt32.ofNat_toNat⟩

theorem byte?_eq_some_iff {b : UInt8} : byte? cs = some b ↔ SpellsUnsigned cs b.toNat := by
  simp only [byte?, Option.map_eq_some_iff, unsigned?_eq_some_iff]
  constructor
  · rintro ⟨n, ⟨hn, hless⟩, rfl⟩
    rwa [UInt8.toNat_ofNat_of_lt' hless]
  · intro h
    exact ⟨b.toNat, ⟨h, b.toNat_lt⟩, UInt8.ofNat_toNat⟩

theorem map_signed?_eq_some_iff {n : Int32} :
    (signed? 0x80000000 cs).map Int32.ofInt = some n ↔ SpellsSigned cs n.toInt := by
  have hbound : 0 < 0x80000000 := by decide
  simp only [Option.map_eq_some_iff, signed?_eq_some_iff hbound]
  constructor
  · rintro ⟨k, ⟨hk, hlow, hhigh⟩, rfl⟩
    rwa [Int32.toInt_ofInt_of_le hlow hhigh]
  · intro h
    exact ⟨n.toInt, ⟨h, n.le_toInt, n.toInt_lt⟩, Int32.ofInt_toInt n⟩

end Text

namespace Cell

/-! ## Parsing -/

section Parse

variable {α : Type} {kind : NumeralKind} {read : List Char → Option α} {s : String} {a : α}

theorem parse_eq_ok_iff : parse kind read s = .ok a ↔ read (Text.trim s.toList) = some a := by
  unfold parse
  cases read (Text.trim s.toList) <;> simp

theorem parse_eq_error_iff {e : ReadingError} :
    parse kind read s = .error e ↔ e = .unparsable s kind ∧ ∀ a, parse kind read s ≠ .ok a := by
  unfold parse
  cases read (Text.trim s.toList) with
  | some a => simp
  | none => simp [eq_comm]

/-- White space around a text is not looked at. -/
theorem parse_pads {before after : String} (hbefore : Text.Blank before.toList)
    (hafter : Text.Blank after.toList) :
    parse kind read (before ++ s ++ after) = .ok a ↔ parse kind read s = .ok a := by
  have hpads : Text.Pads s.toList (before ++ s ++ after).toList := by
    rw [String.toList_append, String.toList_append]
    exact ⟨_, _, hbefore, hafter, rfl⟩
  rw [parse_eq_ok_iff, parse_eq_ok_iff, hpads.trim_eq]

/-- What is read as numerals of a form without white space is found in padded texts. -/
theorem parse_eq_ok_iff_pads {form : List Char → α → Prop}
    (hread : ∀ cs a, read cs = some a ↔ form cs a)
    (hform : ∀ cs a, form cs a → ∀ c ∈ cs, Text.isBlank c = false) :
    parse kind read s = .ok a ↔ ∃ core, Text.Pads core s.toList ∧ form core a := by
  rw [parse_eq_ok_iff, hread]
  constructor
  · intro h
    exact ⟨_, Text.pads_trim s.toList, h⟩
  · rintro ⟨core, hpads, h⟩
    rwa [hpads.trim_eq, Text.trim_eq_self (hform core a h)]

end Parse

variable {s : String} {v : UInt32} {n : Int32}

theorem parseUint_eq_ok_iff :
    parseUint s = .ok v ↔ ∃ core, Text.Pads core s.toList ∧ Text.SpellsUnsigned core v.toNat :=
  parse_eq_ok_iff_pads (fun _ _ => Text.word?_eq_some_iff) fun _ _ => Text.SpellsUnsigned.not_blank

theorem parseSint_eq_ok_iff :
    parseSint s = .ok n ↔ ∃ core, Text.Pads core s.toList ∧ Text.SpellsSigned core n.toInt :=
  parse_eq_ok_iff_pads (fun _ _ => Text.map_signed?_eq_some_iff) fun _ _ =>
    Text.SpellsSigned.not_blank

theorem parseUint_toString (v : UInt32) : parseUint (toString v.toNat) = .ok v :=
  parseUint_eq_ok_iff.2 ⟨_, Text.pads_self _, _, .inl rfl, Text.spells_repr v.toNat⟩

theorem parseSint_toString (n : Int32) : parseSint (toString n.toInt) = .ok n :=
  parseSint_eq_ok_iff.2 ⟨_, Text.pads_self _, Text.spellsSigned_toString n.toInt⟩

end Cell

end CellMachine
