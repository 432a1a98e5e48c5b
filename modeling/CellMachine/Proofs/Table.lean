import CellMachine.Table

/-!
# Namespaces of a table

This module proves which namespaces a table has after each operation on it. Only deleting and
pruning take any away. The one that is kept when a table is pruned is all that is left, if it was
there.
-/

namespace CellMachine.Table

variable {t t' : Table} {id id' : UInt32}

theorem contains_iff : t.contains id = true ↔ ∃ slot, t.get? id = some slot :=
  Option.isSome_iff_exists

theorem memory_of_contains (h : t.contains id = true) : ∃ ns, t.memory id = .ok ns := by
  rcases contains_iff.1 h with ⟨slot, hslot⟩
  exact ⟨slot.memory, by rw [memory, hslot]⟩

theorem keys_ne_nil_of_contains (h : t.contains id = true) : t.keys ≠ [] := by
  intro hkeys
  rw [contains_iff, OrderedMap.get?, List.map_eq_nil_iff.1 hkeys] at h
  rcases h with ⟨slot, hslot⟩
  cases hslot

theorem contains_insert (slot : Slot) :
    (t.insert id slot).contains id' = true ↔ id' = id ∨ t.contains id' = true := by
  rw [contains_iff, contains_iff, OrderedMap.get?_insert]
  split <;> simp [*]

theorem contains_create (h : t.contains id' = true) : (t.create id).contains id' = true :=
  (contains_insert _).2 (.inr h)

theorem contains_of_setMemory {ns : Namespace} (ht : t.setMemory id ns = .ok t')
    (h : t.contains id' = true) : t'.contains id' = true := by
  unfold setMemory at ht
  split at ht
  · cases ht
    exact (contains_insert _).2 (.inr h)
  · cases ht

theorem contains_of_bind {handler : Handler} (ht : t.bind id handler = .ok t')
    (h : t.contains id' = true) : t'.contains id' = true := by
  unfold bind at ht
  split at ht
  · cases ht
    exact (contains_insert _).2 (.inr h)
  · cases ht

theorem contains_unbind (h : t.contains id' = true) : (t.unbind id).contains id' = true := by
  unfold unbind
  split
  · exact (contains_insert _).2 (.inr h)
  · exact h

theorem contains_of_delete {active : UInt32} (ht : t.delete id active = .ok t')
    (h : t.contains id' = true) (hne : id' ≠ id) : t'.contains id' = true := by
  unfold delete at ht
  split at ht
  · cases ht
  · split at ht
    · cases ht
      rwa [contains_iff, OrderedMap.get?_erase, if_neg hne, ← contains_iff]
    · cases ht

theorem ne_of_delete {active : UInt32} (ht : t.delete id active = .ok t') : id ≠ active := by
  rintro rfl
  rw [delete, if_pos rfl] at ht
  cases ht

theorem retainOnly_eq {slot : Slot} (h : t.get? id = some slot) :
    t.retainOnly id = OrderedMap.empty.insert id slot := by
  refine OrderedMap.ext_get? fun k => ?_
  rw [retainOnly, OrderedMap.get?_retain, OrderedMap.get?_insert]
  by_cases hk : k = id
  · simp [hk, h]
  · simp [hk]

theorem contains_retainOnly (h : t.contains id = true) : (t.retainOnly id).contains id = true := by
  rcases contains_iff.1 h with ⟨slot, hslot⟩
  rw [retainOnly_eq hslot, contains_insert]
  exact .inl rfl

theorem keys_retainOnly (h : t.contains id = true) : (t.retainOnly id).keys = [id] := by
  rcases contains_iff.1 h with ⟨slot, hslot⟩
  rw [retainOnly_eq hslot]
  rfl

end CellMachine.Table
