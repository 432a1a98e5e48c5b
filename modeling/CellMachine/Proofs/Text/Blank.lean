import CellMachine.Text.Blank
import Mathlib.Data.List.TakeWhile

/-!
# Trimming

This module proves what trimming takes off: white space at both ends, as much as there is of it.
More of it around a text makes no difference, and a text that has none is left alone. Digits are not
white space.
-/

namespace CellMachine.Text

variable {before cs after : List Char}

/-- Whether all characters are white space. -/
def Blank (cs : List Char) : Prop := ∀ c ∈ cs, isBlank c = true

/-- The text is `core` with white space around it. -/
def Pads (core cs : List Char) : Prop :=
  ∃ before after, Blank before ∧ Blank after ∧ cs = before ++ core ++ after

theorem Blank.append (h : Blank before) (h' : Blank after) : Blank (before ++ after) := by
  intro c hc
  rcases List.mem_append.1 hc with hc | hc
  · exact h c hc
  · exact h' c hc

theorem Blank.reverse (h : Blank cs) : Blank cs.reverse := fun c hc => h c (List.mem_reverse.1 hc)

theorem blank_takeWhile (cs : List Char) : Blank (cs.takeWhile isBlank) :=
  fun _ => List.mem_takeWhile_imp

theorem pads_self (cs : List Char) : Pads cs cs := ⟨[], [], nofun, nofun, by simp⟩

theorem pads_trim (cs : List Char) : Pads (trim cs) cs := by
  have hback := List.takeWhile_append_dropWhile (p := isBlank) (l := (cs.dropWhile isBlank).reverse)
  refine ⟨cs.takeWhile isBlank, ((cs.dropWhile isBlank).reverse.takeWhile isBlank).reverse,
    blank_takeWhile cs, (blank_takeWhile _).reverse, ?_⟩
  rw [trim, List.append_assoc, ← List.reverse_append, hback, List.reverse_reverse,
    List.takeWhile_append_dropWhile]

theorem trim_append_right (cs : List Char) (h : Blank after) : trim (cs ++ after) = trim cs := by
  rw [trim, trim, List.dropWhile_append]
  split
  · -- Only white space is left, which is taken off from the front already.
    rename_i hempty
    rw [List.isEmpty_iff.1 hempty, List.dropWhile_eq_nil_iff.2 h]
  · rw [List.reverse_append, List.dropWhile_append_of_pos h.reverse]

theorem trim_append_left (h : Blank before) (cs : List Char) : trim (before ++ cs) = trim cs := by
  rw [trim, List.dropWhile_append_of_pos h, trim]

theorem Pads.trim_eq {core : List Char} (h : Pads core cs) : trim cs = trim core := by
  obtain ⟨before, after, hbefore, hafter, rfl⟩ := h
  rw [trim_append_right _ hafter, trim_append_left hbefore]

theorem dropWhile_isBlank_eq_self (h : ∀ c ∈ cs, isBlank c = false) :
    cs.dropWhile isBlank = cs := by
  cases cs with
  | nil => rfl
  | cons c cs => rw [List.dropWhile_cons_of_neg (by simp [h c List.mem_cons_self])]

theorem trim_eq_self (h : ∀ c ∈ cs, isBlank c = false) : trim cs = cs := by
  rw [trim, dropWhile_isBlank_eq_self h,
    dropWhile_isBlank_eq_self fun c hc => h c (List.mem_reverse.1 hc), List.reverse_reverse]

theorem isBlank_of_isDigit {c : Char} (h : c.isDigit) : isBlank c = false := by
  have hrange : 48 ≤ c.toNat ∧ c.toNat ≤ 57 := by
    simpa [Char.isDigit, UInt32.le_iff_toNat_le] using h
  simp [isBlank, blankRanges]
  omega

end CellMachine.Text
