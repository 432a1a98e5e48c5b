import CellMachine.Machine.Launch
import CellMachine.Proofs.Stateful

/-!
# Actions that read

This module proves what the elementary actions of an instruction do. An action `ReadsOnly` if it
leaves every state as it is, whether it fails or not; most of an instruction is of this kind, and
then come at most a few changes at its end.
-/

namespace CellMachine

namespace Focus

def slot? (s : Focus) : Option Slot := s.world.table.get? s.exec.active

/-- The state with other cells in the slot of the active namespace. -/
def withCells (s : Focus) (slot : Slot) (ns : Namespace) : Focus :=
  { s with world.table := s.world.table.insert s.exec.active { slot with memory := ns } }

/-- The state with a provider and a system in the places of those that file instructions use. -/
def withStorage (s : Focus) (storage : Storage) : Focus :=
  if s.exec.usesBundle then
    { s with world := { s.world with host := storage.host, bundle := some storage.provider } }
  else { s with world := { s.world with host := storage.host, primary := storage.provider } }

end Focus

namespace Action

variable {ε α β : Type} {s s' : Focus}

/-! ## Reading -/

/-- The action leaves the state `s` as it is. -/
def ReadsAt (s : Focus) (a : Action α) : Prop := (∃ v, a s = .ok v s) ∨ ∃ e, a s = .error e s

/-- The action leaves every state as it is. -/
def ReadsOnly (a : Action α) : Prop := ∀ s, a.ReadsAt s

theorem ReadsAt.eq_of_ok {a : Action α} (h : a.ReadsAt s) {v : α} (hv : a s = .ok v s') :
    s' = s := by
  rcases h with ⟨w, h⟩ | ⟨e, h⟩
  · rw [h] at hv
    cases hv
    rfl
  · rw [h] at hv
    cases hv

theorem ReadsAt.eq_of_error {a : Action α} (h : a.ReadsAt s) {e : Abort}
    (he : a s = .error e s') : s' = s := by
  rcases h with ⟨w, h⟩ | ⟨e, h⟩
  · rw [h] at he
    cases he
  · rw [h] at he
    cases he
    rfl

theorem ReadsAt.bind {a : Action α} {k : α → Action β} (ha : a.ReadsAt s)
    (hk : ∀ v, a s = .ok v s → (k v).ReadsAt s) : (a >>= k).ReadsAt s := by
  rcases ha with ⟨v, h⟩ | ⟨e, h⟩
  · have hrest := hk v h
    rwa [ReadsAt, Stateful.bind_of_ok h]
  · exact .inr ⟨e, Stateful.bind_of_error h k⟩

theorem ReadsOnly.bind {a : Action α} {k : α → Action β} (ha : a.ReadsOnly)
    (hk : ∀ v, (k v).ReadsOnly) : (a >>= k).ReadsOnly :=
  fun s => (ha s).bind fun v _ => hk v s

theorem readsOnly_pure (v : α) : (pure v : Action α).ReadsOnly :=
  fun _ => .inl ⟨v, rfl⟩

theorem readsOnly_fail (f : Fault) : (fail f : Action α).ReadsOnly :=
  fun _ => .inr ⟨.fault f, rfl⟩

theorem readsOnly_get : (get : Action Focus).ReadsOnly :=
  fun s => .inl ⟨s, rfl⟩

theorem readsOnly_ofExcept (r : Except Fault α) : (ofExcept r).ReadsOnly := by
  cases r with
  | ok v => exact readsOnly_pure v
  | error f => exact readsOnly_fail f

theorem readsOnly_memory : memory.ReadsOnly :=
  readsOnly_get.bind fun _ => readsOnly_ofExcept _

theorem readsOnly_reading (f : Namespace → Except Fault α) : (reading f).ReadsOnly :=
  readsOnly_memory.bind fun _ => readsOnly_ofExcept _

theorem readsOnly_provider : provider.ReadsOnly := by
  refine readsOnly_get.bind fun s => ?_
  split
  · split
    · exact readsOnly_pure _
    · exact readsOnly_fail _
  · exact readsOnly_pure _

/-! ## Changes -/

/-- The slot of the active namespace decides whether cells can be set, and nothing else does. -/
theorem setMemory_eq (ns : Namespace) (s : Focus) : setMemory ns s =
    match s.slot? with
    | some slot => .ok () (s.withCells slot ns)
    | none => .error (.fault (.undefinedNamespace s.exec.active)) s := by
  have hrun : setMemory ns s =
      (ofExcept (s.world.table.setMemory s.exec.active ns) >>= setTable) s := rfl
  rw [hrun, Focus.slot?, Table.setMemory]
  cases s.world.table.get? s.exec.active <;> rfl

theorem memory_eq (s : Focus) : memory s =
    match s.slot? with
    | some slot => .ok slot.memory s
    | none => .error (.fault (.undefinedNamespace s.exec.active)) s := by
  have hrun : memory s = ofExcept (s.world.table.memory s.exec.active) s := rfl
  rw [hrun, Focus.slot?, Table.memory]
  cases s.world.table.get? s.exec.active <;> rfl

theorem reading_eq (f : Namespace → Except Fault α) (s : Focus) : reading f s =
    match s.slot? with
    | some slot => ofExcept (f slot.memory) s
    | none => .error (.fault (.undefinedNamespace s.exec.active)) s := by
  have hmemory := memory_eq s
  unfold reading
  cases h : s.slot? with
  | some slot =>
    rw [h] at hmemory
    exact Stateful.bind_of_ok hmemory _
  | none =>
    rw [h] at hmemory
    exact Stateful.bind_of_error hmemory _

/-- A reading that does not succeed is a fault. -/
theorem reading_cases (f : Namespace → Except Fault α) (s : Focus) :
    (∃ v, reading f s = .ok v s) ∨ ∃ e, reading f s = .error (.fault e) s := by
  rw [reading_eq]
  cases s.slot? with
  | none => exact .inr ⟨_, rfl⟩
  | some slot =>
    dsimp only
    cases f slot.memory with
    | ok v => exact .inl ⟨v, rfl⟩
    | error e => exact .inr ⟨e, rfl⟩

theorem ofExcept_eq_ok_iff {r : Except Fault α} {v : α} :
    ofExcept r s = .ok v s' ↔ r = .ok v ∧ s' = s := by
  cases r with
  | ok w =>
    change EStateM.Result.ok w s = _ ↔ _
    simp [eq_comm]
  | error f =>
    change EStateM.Result.error (Abort.fault f) s = _ ↔ _
    simp

theorem reading_eq_ok_iff {f : Namespace → Except Fault α} {v : α} :
    reading f s = .ok v s' ↔ s' = s ∧ ∃ slot, s.slot? = some slot ∧ f slot.memory = .ok v := by
  rw [reading_eq]
  cases s.slot? with
  | some slot => simp [ofExcept_eq_ok_iff, and_comm]
  | none => simp

theorem setCell_eq (address : UInt32) (value : Bytes) (s : Focus) : setCell address value s =
    match s.slot? with
    | some slot => .ok () (s.withCells slot (slot.memory.insert address value))
    | none => .error (.fault (.undefinedNamespace s.exec.active)) s := by
  have hrun : setCell address value s =
      (memory >>= fun ns => setMemory (ns.insert address value)) s := rfl
  have hmemory := memory_eq s
  rw [hrun]
  cases h : s.slot? with
  | some slot =>
    rw [h] at hmemory
    rw [Stateful.bind_of_ok hmemory, setMemory_eq, h]
  | none =>
    rw [h] at hmemory
    exact Stateful.bind_of_error hmemory _

/-! ## Files -/

theorem onFiles_of_provider {a : FileAction α} {p : Provider} (h : provider s = .ok p s) :
    onFiles a s =
      match a ⟨p, s.world.host⟩ with
      | .ok v storage => .ok v (s.withStorage storage)
      | .error e storage => .error (.fault (.ofProvider e)) (s.withStorage storage) := by
  rw [onFiles, Stateful.bind_of_ok h, Stateful.get_bind, EStateM.run]
  cases a ⟨p, s.world.host⟩ <;> rfl

theorem provider_eq_ok_iff {p : Provider} : provider s = .ok p s ↔
    if s.exec.usesBundle then s.world.bundle = some p else s.world.primary = p := by
  rw [provider, Stateful.get_bind]
  split
  · cases s.world.bundle with
    | some q => exact ⟨fun h => by cases h; rfl, fun h => by cases h; rfl⟩
    | none => exact ⟨fun h => (by cases h), fun h => (by cases h)⟩
  · exact ⟨fun h => by cases h; rfl, fun h => by cases h; rfl⟩

/-! ## Writing -/

def announce (form : UInt32) (v : Bytes) : Action Flow := do
  if (← get).world.sink.isSome then
    match ← ofExcept (rendering form v) with
    | some text => print text
    | none => pure ()
  return .next

theorem write_eq (i : Instruction) : write i = (do
    let form ← ofExcept (i.address 1)
    let v ← reading fun ns => i.value ns 0
    if i.args[2]? ≠ some [1] then emit v
    announce form v) := rfl

end Action

/-! ## Calls -/

theorem Handler.call_of_ok {h : Handler} {hook : Hook} {i : Instruction} {s t : Focus} {u : Unit}
    (hrun : (h.hook hook (i.call s)).perform s = .ok u t) :
    h.call hook i s = .ok () (t.recorded ⟨h, hook, i.call s, none⟩) := by
  rw [Handler.call, hrun]

/-- No panic of a handler leaves the call. -/
theorem Handler.call_of_error {h : Handler} {hook : Hook} {i : Instruction} {s t : Focus}
    {e : Abort}
    (hrun : (h.hook hook (i.call s)).perform s = .error e t) :
    h.call hook i s =
      .error (.fault (h.failure e)) (t.recorded ⟨h, hook, i.call s, some (h.failure e)⟩) := by
  rw [Handler.call, hrun]

end CellMachine
