import CellMachine.Proofs.Machine.Spawn

/-!
# Instructions that fail

This module proves that a failing native instruction leaves the state of the machine as it was. An
action is atomic in a state if its faults are found before its first change: reads come first, then
a change that either happens as a whole or not at all, and after that nothing that can fail. The
rules below follow this shape, and every instruction but a few is an instance of it. A spawn is one
only where the host gives threads, since it is asked for one when the program is cut already.

Whether a write to files or a read of input is atomic depends on what is behind it. Files in memory
and scripted input are; `Focus.SelfContained` asks for these.
-/

namespace CellMachine

namespace Action

variable {α β : Type} {s s' : Focus}

/-! ## Atomic actions -/

/-- A fault of the action in the state `s` leaves the state as it is. -/
def AtomicAt (s : Focus) (a : Action α) : Prop := ∀ f s', a s = .error (.fault f) s' → s' = s

/-- The action has no fault in the state `s`. -/
def FaultlessAt (s : Focus) (a : Action α) : Prop := ∀ f s', a s ≠ .error (.fault f) s'

/-- Reads may come before anything. -/
theorem AtomicAt.after {a : Action α} {k : α → Action β} (ha : a.ReadsAt s)
    (hk : ∀ v, a s = .ok v s → (k v).AtomicAt s) : (a >>= k).AtomicAt s := by
  intro f s' h
  rcases Stateful.bind_eq_error_iff.1 h with he | ⟨v, t, hv, he⟩
  · exact ha.eq_of_error he
  · obtain rfl := ha.eq_of_ok hv
    exact hk v hv f s' he

/-- After a change there may only be what cannot fail. -/
theorem AtomicAt.before {a : Action α} {k : α → Action β} (ha : a.AtomicAt s)
    (hk : ∀ v s', a s = .ok v s' → (k v).FaultlessAt s') : (a >>= k).AtomicAt s := by
  intro f s' h
  rcases Stateful.bind_eq_error_iff.1 h with he | ⟨v, t, hv, he⟩
  · exact ha f s' he
  · exact absurd he (hk v t hv f s')

theorem faultlessAt_pure (v : α) : (pure v : Action α).FaultlessAt s := by
  intro f s' h
  cases h

theorem faultlessAt_print (text : String) : (print text).FaultlessAt s := by
  intro f s' h
  unfold print at h
  split at h <;> cases h

theorem FaultlessAt.bind {a : Action α} {k : α → Action β} (ha : a.FaultlessAt s)
    (hk : ∀ v s', a s = .ok v s' → (k v).FaultlessAt s') : (a >>= k).FaultlessAt s := by
  intro f s' h
  rcases Stateful.bind_eq_error_iff.1 h with he | ⟨v, t, hv, he⟩
  · exact ha f s' he
  · exact hk v t hv f s' he

/-- The value that an action is said to have does not matter. -/
theorem AtomicAt.return {a : Action α} (ha : a.AtomicAt s) (v : β) :
    (a >>= fun _ => pure v).AtomicAt s :=
  ha.before fun _ _ _ => faultlessAt_pure v

theorem FaultlessAt.return {a : Action α} (ha : a.FaultlessAt s) (v : β) :
    (a >>= fun _ => pure v).FaultlessAt s :=
  ha.bind fun _ _ _ => faultlessAt_pure v

theorem AtomicAt.atOnce {a : Action Flow} (ha : a.AtomicAt s) : (atOnce a).AtomicAt s :=
  ha.before fun _ _ _ => faultlessAt_pure _

/-! ## Cells -/

theorem readsOnly_checkRestricted (o : Options) (action target : String) :
    (checkRestricted o action target).ReadsOnly :=
  readsOnly_get.bind fun _ => readsOnly_ofExcept _

theorem readsOnly_resolveExtension (o : Options) (name : String) :
    (resolveExtension o name).ReadsOnly := by
  unfold resolveExtension
  split
  · exact readsOnly_get.bind fun _ => readsOnly_pure _
  · split
    · exact readsOnly_fail _
    · refine (readsOnly_checkRestricted o _ _).bind fun _ => readsOnly_get.bind fun t => ?_
      dsimp only
      split
      · exact readsOnly_fail _
      · exact (readsOnly_ofExcept _).bind fun _ => readsOnly_pure _

end Action

/-! ## Input and files -/

namespace Action

variable {α β : Type} {s s' : Focus}

/-- The values that the action may have are all `p`. -/
def Yields (p : α → Prop) (a : Action α) : Prop := ∀ s v s', a s = .ok v s' → p v

theorem Yields.bind {p : β → Prop} {a : Action α} {k : α → Action β} (hk : ∀ v, (k v).Yields p) :
    (a >>= k).Yields p := by
  intro s v s' h
  obtain ⟨w, t, -, hv⟩ := Stateful.bind_eq_ok_iff.1 h
  exact hk w t v s' hv

end Action

/-- Take over the outcome of an executor that was waited for. -/
def Reception.accept (r : Reception) (outcome : Outcome) : Action Unit :=
  match r with
  | .ignore => pure ()
  | .append failure => do
    Action.emit outcome.output
    match failure with
    | some f => Action.fail f
    | none => pure ()

theorem Action.receive_eq (i : Instruction) (r : Reception) (outcome : Outcome) :
    receive i r outcome = (do r.accept outcome; finish i .next) := by
  rcases r with _ | ⟨_ | f⟩ <;> rfl

namespace Opcode

variable {s s' : Focus}

theorem exists_mem_table_of_ofCode? {code : UInt32} {op : Opcode} (h : ofCode? code = some op) :
    ∃ e ∈ table, e.code = code.toNat ∧ e.op = op := by
  obtain ⟨e, he, hop⟩ := Option.map_eq_some_iff.1 h
  have hcode := List.find?_some he
  exact ⟨e, List.mem_of_find?_eq_some he, by simpa using hcode, hop⟩

end Opcode

end CellMachine
