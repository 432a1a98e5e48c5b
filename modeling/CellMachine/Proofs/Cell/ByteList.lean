import CellMachine.Proofs.Cell
import CellMachine.Proofs.Cell.Numeral
import Mathlib.Data.List.Forall2

/-!
# Lists of bytes

This module proves which texts are read as lists of bytes, and as which ones, and that the list of a
byte string is read back (`byteLists_exact`). The empty text is the empty list although it has one
field, as every text has; an empty field is refused everywhere else.
-/

namespace CellMachine.Cell

theorem mapM_eq_some_iff {α β : Type} {f : α → Option β} {as : List α} {bs : List β} :
    as.mapM f = some bs ↔ List.Forall₂ (fun a b => f a = some b) as bs := by
  induction as generalizing bs with
  | nil => cases bs <;> simp
  | cons a as ih =>
    rw [List.mapM_cons]
    cases ha : f a with
    | none => cases bs <;> simp [ha]
    | some b =>
      cases has : as.mapM f with
      | none => cases bs <;> simp [ha, has, ← ih]
      | some bs' => cases bs <;> simp [ha, has, ← ih]

/-- The parts are numerals of the bytes in their places, with white space around any of them. -/
def Spelled (parts : List (List Char)) (bytes : Bytes) : Prop :=
  List.Forall₂ (fun part b => Text.SpellsUnsigned (Text.trim part) b.toNat) parts bytes

/-- The text is empty and there are no bytes, or it is a list of numerals of the bytes with commas
between them. -/
def WritesBytes (cs : List Char) (bytes : Bytes) : Prop :=
  cs = [] ∧ bytes = [] ∨
    ∃ parts, parts ≠ [] ∧ (∀ part ∈ parts, ',' ∉ part) ∧ cs = Text.joined ',' parts ∧
      Spelled parts bytes

theorem mapM_byte?_eq_some_iff {parts : List (List Char)} {bytes : Bytes} :
    (parts.mapM fun part => Text.byte? (Text.trim part)) = some bytes ↔ Spelled parts bytes := by
  simp only [mapM_eq_some_iff, Text.byte?_eq_some_iff, Spelled]

theorem not_spelled_of_empty {bytes : Bytes} : ¬Spelled [[]] bytes := by
  intro h
  obtain ⟨b, rest, hspells, -, -⟩ := List.forall₂_cons_left_iff.1 h
  obtain ⟨ds, hds | hds, hdigits⟩ := hspells
  · exact hdigits.1 hds.symm
  · cases hds

/-- There is one way to cut a text at its commas, and a list of numerals is no empty text. -/
theorem byteList?_eq_some_iff {cs : List Char} {bytes : Bytes} :
    byteList? cs = some bytes ↔ WritesBytes cs bytes := by
  unfold byteList?
  split
  · rename_i hempty
    rw [List.isEmpty_iff.1 hempty]
    constructor
    · rintro ⟨⟩
      exact .inl ⟨rfl, rfl⟩
    · rintro (⟨-, rfl⟩ | ⟨parts, hne, hcomma, hparts, hspelled⟩)
      · rfl
      · -- The parts would be the one field of the empty text, which is no numeral.
        rw [← Text.fields_joined hne hcomma, ← hparts] at hspelled
        exact absurd hspelled not_spelled_of_empty
  · rename_i hne
    rw [mapM_byte?_eq_some_iff]
    constructor
    · intro h
      exact .inr ⟨_, Text.fields_ne_nil _ _, fun _ => Text.not_mem_of_mem_fields,
        (Text.joined_fields _ _).symm, h⟩
    · rintro (⟨rfl, -⟩ | ⟨parts, hparts, hcomma, rfl, hspelled⟩)
      · exact absurd rfl hne
      · rwa [Text.fields_joined hparts hcomma]

theorem parseByteList_eq_ok_iff {s : String} {bytes : Bytes} :
    parseByteList s = .ok bytes ↔ WritesBytes s.toList bytes := by
  rw [← byteList?_eq_some_iff, parseByteList]
  cases byteList? s.toList <;> simp

theorem parseByteList_eq_error_iff {s : String} {e : ReadingError} :
    parseByteList s = .error e ↔
      e = .unparsable s .byteList ∧ ∀ bytes, ¬WritesBytes s.toList bytes := by
  simp only [← byteList?_eq_some_iff, parseByteList]
  cases byteList? s.toList with
  | some bytes => simp
  | none => simp [eq_comm]

/-- The list of a byte string is read back as the byte string. A text is read as a list of bytes if
and only if it is empty or lists numerals of them, with an optional `+` in front of each and white
space around it, between commas; the bytes are the values of the numerals in their order. Any other
text is refused as a whole. -/
theorem byteLists_exact :
    (∀ bytes, parseByteList (byteList bytes) = .ok bytes) ∧
    (∀ s bytes, parseByteList s = .ok bytes ↔ WritesBytes s.toList bytes) ∧
    ∀ s e, parseByteList s = .error e ↔
      e = .unparsable s .byteList ∧ ∀ bytes, ¬WritesBytes s.toList bytes := by
  refine ⟨?_, fun _ _ => parseByteList_eq_ok_iff, fun _ _ => parseByteList_eq_error_iff⟩
  intro bytes
  rw [parseByteList, byteList?_byteList]

/-- A sign, zeros and white space make no difference. A trailing comma and a number that is no byte
make the whole text no list. -/
theorem byteLists_exact_padded :
    WritesBytes "+007,\u3000255\n".toList [7, 255] ∧ (∀ bytes, ¬WritesBytes "1,".toList bytes) ∧
    ∀ bytes, ¬WritesBytes "0,256".toList bytes := by
  obtain ⟨-, hread, hrefused⟩ := byteLists_exact
  refine ⟨(hread _ _).1 ?_, ((hrefused _ (.unparsable "1," .byteList)).1 ?_).2,
    ((hrefused _ (.unparsable "0,256" .byteList)).1 ?_).2⟩
  · decide +kernel
  · decide +kernel
  · decide +kernel

end CellMachine.Cell
