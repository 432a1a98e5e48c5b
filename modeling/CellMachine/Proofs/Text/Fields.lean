import CellMachine.Text.Fields

/-!
# Cutting and joining

This module proves that cutting a text at a separator and joining fields undo each other. The fields
of a text have no separator and give the text when they are joined, and there is only one such way
to cut it.
-/

namespace CellMachine.Text

variable {separator : Char} {part : List Char}

theorem fields_ne_nil (separator : Char) (cs : List Char) : fields separator cs ≠ [] := by
  cases cs with
  | nil => exact List.cons_ne_nil _ _
  | cons c cs =>
    rw [fields]
    split
    · exact List.cons_ne_nil _ _
    · cases fields separator cs <;> exact List.cons_ne_nil _ _

/-- A character that is no separator goes to the first field. -/
theorem fields_cons_of_ne {c : Char} (h : c ≠ separator) (cs : List Char) :
    ∃ field more, fields separator cs = field :: more ∧
      fields separator (c :: cs) = (c :: field) :: more := by
  obtain ⟨field, more, hfields⟩ := List.exists_cons_of_ne_nil (fields_ne_nil separator cs)
  exact ⟨field, more, hfields, by rw [fields, if_neg h, hfields]⟩

theorem fields_of_not_mem (h : separator ∉ part) : fields separator part = [part] := by
  induction part with
  | nil => rfl
  | cons c cs ih =>
    obtain ⟨hne, hcs⟩ := List.ne_and_not_mem_of_not_mem_cons h
    rw [fields, if_neg (Ne.symm hne), ih hcs]

/-- The fields on both sides of a separator are cut one by one. -/
theorem fields_append_separator (cs rest : List Char) :
    fields separator (cs ++ separator :: rest) = fields separator cs ++ fields separator rest := by
  induction cs with
  | nil => simp [fields]
  | cons c cs ih =>
    rw [List.cons_append]
    by_cases hc : c = separator
    · rw [fields, if_pos hc, fields, if_pos hc, ih, List.cons_append]
    · obtain ⟨field, more, hfields, hcons⟩ := fields_cons_of_ne hc cs
      rw [hcons, fields, if_neg hc, ih, hfields]
      rfl

theorem fields_append (h : separator ∉ part) (rest : List Char) :
    fields separator (part ++ separator :: rest) = part :: fields separator rest := by
  rw [fields_append_separator, fields_of_not_mem h, List.singleton_append]

theorem fields_joined {parts : List (List Char)} (hne : parts ≠ [])
    (h : ∀ part ∈ parts, separator ∉ part) : fields separator (joined separator parts) = parts := by
  induction parts with
  | nil => exact absurd rfl hne
  | cons part rest ih =>
    obtain ⟨hpart, hrest⟩ := List.forall_mem_cons.1 h
    cases rest with
    | nil => exact fields_of_not_mem hpart
    | cons next rest =>
      rw [joined, fields_append hpart, ih (List.cons_ne_nil _ _) hrest]
      exact List.cons_ne_nil _ _

theorem joined_fields (separator : Char) (cs : List Char) :
    joined separator (fields separator cs) = cs := by
  induction cs with
  | nil => rfl
  | cons c cs ih =>
    by_cases hc : c = separator
    · obtain ⟨field, more, hfields⟩ := List.exists_cons_of_ne_nil (fields_ne_nil separator cs)
      rw [fields, if_pos hc, hfields, joined, ← hfields, ih, hc, List.nil_append]
      exact List.cons_ne_nil _ _
    · obtain ⟨field, more, hfields, hcons⟩ := fields_cons_of_ne hc cs
      rw [hfields, joined_cons] at ih
      rw [hcons, joined_cons, List.cons_append, ih]

theorem not_mem_of_mem_fields {cs : List Char} (h : part ∈ fields separator cs) :
    separator ∉ part := by
  induction cs generalizing part with
  | nil =>
    rw [List.mem_singleton.1 h]
    exact List.not_mem_nil
  | cons c cs ih =>
    by_cases hc : c = separator
    · rw [fields, if_pos hc] at h
      rcases List.mem_cons.1 h with rfl | hrest
      · exact List.not_mem_nil
      · exact ih hrest
    · obtain ⟨field, more, hfields, hcons⟩ := fields_cons_of_ne hc cs
      rw [hfields] at ih
      rw [hcons] at h
      rcases List.mem_cons.1 h with rfl | hmore
      · exact List.not_mem_cons_of_ne_of_not_mem (Ne.symm hc) (ih List.mem_cons_self)
      · exact ih (List.mem_cons_of_mem _ hmore)

theorem mem_joined {c : Char} {parts : List (List Char)} (h : c ∈ joined separator parts) :
    c = separator ∨ ∃ part ∈ parts, c ∈ part := by
  induction parts with
  | nil => cases h
  | cons part rest ih =>
    cases rest with
    | nil => exact .inr ⟨part, List.mem_cons_self, h⟩
    | cons next rest =>
      rw [joined] at h
      · rcases List.mem_append.1 h with h | h
        · exact .inr ⟨part, List.mem_cons_self, h⟩
        · rcases List.mem_cons.1 h with h | h
          · exact .inl h
          · rcases ih h with h | ⟨part', hpart', hc⟩
            · exact .inl h
            · exact .inr ⟨part', List.mem_cons_of_mem _ hpart', hc⟩
      · exact List.cons_ne_nil _ _

end CellMachine.Text
