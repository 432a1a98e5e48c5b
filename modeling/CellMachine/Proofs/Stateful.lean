/-!
# Actions on a state

This module proves what two actions come to when one follows the other. An action that fails keeps
the state that it has reached, so that the error of a sequence comes with the state of the action
that it is from.

`Stateful.Ensures` is about an action in one state: it tells of the state that the action ends in,
whether it fails or not, and of its value. What a sequence ensures comes from what its parts ensure.
-/

namespace CellMachine.Stateful

variable {ε σ α β : Type} {s s' : σ}

theorem bind_of_ok {a : EStateM ε σ α} {v : α} (h : a s = .ok v s') (k : α → EStateM ε σ β) :
    (a >>= k) s = k v s' := by
  change EStateM.bind a k s = _
  rw [EStateM.bind, h]

theorem bind_of_error {a : EStateM ε σ α} {e : ε} (h : a s = .error e s')
    (k : α → EStateM ε σ β) : (a >>= k) s = .error e s' := by
  change EStateM.bind a k s = _
  rw [EStateM.bind, h]

theorem get_bind (k : σ → EStateM ε σ β) (s : σ) : (get >>= k) s = k s s := rfl

theorem bind_eq_ok_iff {a : EStateM ε σ α} {k : α → EStateM ε σ β} {b : β} :
    (a >>= k) s = .ok b s' ↔ ∃ v t, a s = .ok v t ∧ k v t = .ok b s' := by
  cases h : a s with
  | ok v t => simp [bind_of_ok h, and_assoc]
  | error e t => simp [bind_of_error h]

theorem bind_eq_error_iff {a : EStateM ε σ α} {k : α → EStateM ε σ β} {e : ε} :
    (a >>= k) s = .error e s' ↔
      a s = .error e s' ∨ ∃ v t, a s = .ok v t ∧ k v t = .error e s' := by
  cases h : a s with
  | ok v t => simp [bind_of_ok h, and_assoc]
  | error e t => simp [bind_of_error h]

theorem pure_eq_ok_iff {v w : α} :
    (pure v : EStateM ε σ α) s = .ok w s' ↔ v = w ∧ s = s' := by
  change EStateM.Result.ok v s = .ok w s' ↔ _
  simp

theorem except_bind_eq_ok_iff {x : Except ε α} {k : α → Except ε β} {b : β} :
    x >>= k = .ok b ↔ ∃ a, x = .ok a ∧ k a = .ok b := by
  cases x with
  | error e => exact ⟨nofun, nofun⟩
  | ok a => simp [bind, Except.bind]

/-! ## What an action ensures -/

/-- However the action ends in the state `s`: with a value and a state that `P` tells of, or with an
error and a state that `I` tells of. -/
def Ensures (I : σ → Prop) (s : σ) (a : EStateM ε σ α) (P : α → σ → Prop) : Prop :=
  match a s with
  | .ok v t => P v t
  | .error _ t => I t

variable {I : σ → Prop} {P : α → σ → Prop} {Q : β → σ → Prop}

theorem ensures_of_ok {a : EStateM ε σ α} {v : α} {t : σ} (ha : a s = .ok v t) (hv : P v t) :
    Ensures I s a P := by
  rw [Ensures, ha]
  exact hv

theorem ensures_of_error {a : EStateM ε σ α} {e : ε} {t : σ} (ha : a s = .error e t) (ht : I t) :
    Ensures I s a P := by
  rw [Ensures, ha]
  exact ht

theorem Ensures.of_ok {a : EStateM ε σ α} (h : Ensures I s a P) {v : α} {t : σ}
    (ha : a s = .ok v t) : P v t := by
  rwa [Ensures, ha] at h

theorem Ensures.of_error {a : EStateM ε σ α} (h : Ensures I s a P) {e : ε} {t : σ}
    (ha : a s = .error e t) : I t := by
  rwa [Ensures, ha] at h

theorem Ensures.mono {a : EStateM ε σ α} {I' : σ → Prop} {P' : α → σ → Prop} (h : Ensures I s a P)
    (hI : ∀ t, I t → I' t) (hP : ∀ v t, P v t → P' v t) : Ensures I' s a P' := by
  cases ha : a s with
  | ok v t => exact ensures_of_ok ha (hP v t (h.of_ok ha))
  | error e t => exact ensures_of_error ha (hI t (h.of_error ha))

theorem Ensures.imp {a : EStateM ε σ α} {P' : α → σ → Prop} (h : Ensures I s a P)
    (hP : ∀ v t, P v t → P' v t) : Ensures I s a P' :=
  h.mono (fun _ ht => ht) hP

theorem Ensures.bind {a : EStateM ε σ α} {k : α → EStateM ε σ β} (ha : Ensures I s a P)
    (hk : ∀ v t, P v t → Ensures I t (k v) Q) : Ensures I s (a >>= k) Q := by
  cases h : a s with
  | error e t => exact ensures_of_error (bind_of_error h k) (ha.of_error h)
  | ok v t =>
    have hrest := hk v t (ha.of_ok h)
    rwa [Ensures, bind_of_ok h]

theorem ensures_pure {v : α} (hv : P v s) : Ensures I s (pure v : EStateM ε σ α) P :=
  hv

theorem ensures_throw (hs : I s) (e : ε) : Ensures I s (throw e : EStateM ε σ α) P :=
  hs

theorem ensures_get {k : σ → EStateM ε σ β} (hk : Ensures I s (k s) Q) :
    Ensures I s (get >>= k) Q :=
  hk

theorem ensures_set {t : σ} {P : PUnit → σ → Prop} (ht : P ⟨⟩ t) :
    Ensures I s (set t : EStateM ε σ PUnit) P :=
  ht

theorem ensures_modify {g : σ → σ} {P : PUnit → σ → Prop} (hg : P ⟨⟩ (g s)) :
    Ensures I s (modify g : EStateM ε σ PUnit) P :=
  hg

/-- What `I` tells of the state `s` it tells of the state that the action ends in. -/
def Maintains (I : σ → Prop) (s : σ) (a : EStateM ε σ α) : Prop := Ensures I s a fun _ t => I t

theorem Maintains.return {a : EStateM ε σ α} {w : β} (h : Maintains I s a)
    (hw : ∀ t, I t → Q w t) : Ensures I s (a >>= fun _ => pure w) Q :=
  h.bind fun _ t ht => ensures_pure (hw t ht)

end CellMachine.Stateful
