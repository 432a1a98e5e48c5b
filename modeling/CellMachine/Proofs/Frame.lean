import CellMachine.Frame
import CellMachine.Proofs.Bytes
import CellMachine.Proofs.Stateful

/-!
# Reading back what was written

This module proves that the reads of framed input are inverse to writing. `Reading.Inverts` says
that a read succeeds exactly where the input goes on with the written form of a valid value, that
it finds this value, and that it moves the cursor just behind it. Both directions are in one
equivalence, so that a composed read inherits both from its parts.

A sequence of items up to the end of the input has no count and no terminator. It is read back
because every item takes at least one byte (`Reading.runOn_toEnd_eq_ok_iff`).
-/

namespace CellMachine

/-! ## Moving the cursor -/

/-- The cursor `c'` stands behind the bytes `bs`, which are the next ones at `c`. -/
def Cursor.Passes (c : Cursor) (bs : Bytes) (c' : Cursor) : Prop :=
  c.rest = bs ++ c'.rest ∧ c'.position = c.position + bs.length

namespace Cursor

@[simp] theorem passes_nil {c c' : Cursor} : c.Passes [] c' ↔ c = c' := by
  rcases c with ⟨rest, position⟩
  rcases c' with ⟨rest', position'⟩
  simp [Passes, eq_comm]

theorem passes_append {c c' : Cursor} {bs bs' : Bytes} :
    c.Passes (bs ++ bs') c' ↔ ∃ d, c.Passes bs d ∧ d.Passes bs' c' := by
  constructor
  · rintro ⟨hrest, hposition⟩
    refine ⟨⟨bs' ++ c'.rest, c.position + bs.length⟩, ⟨?_, rfl⟩, rfl, ?_⟩
    · rw [hrest, List.append_assoc]
    · rw [hposition, List.length_append, Nat.add_assoc]
  · rintro ⟨d, ⟨hrest, hposition⟩, hrest', hposition'⟩
    refine ⟨?_, ?_⟩
    · rw [hrest, hrest', List.append_assoc]
    · rw [hposition', hposition, List.length_append, Nat.add_assoc]

theorem Passes.rest_lt {c c' : Cursor} {bs : Bytes} (h : c.Passes bs c') (hbs : bs ≠ []) :
    c'.rest.length < c.rest.length := by
  have hpos := List.length_pos_iff.2 hbs
  rw [h.1, List.length_append]
  omega

end Cursor

/-! ## Results of reads -/

namespace Reading

variable {α β : Type}

theorem cons_eq_ok_iff {item : Reading α} {items : Reading (List α)} {c c' : Cursor}
    {l : List α} :
    (do let a ← item; return a :: (← items) : Reading (List α)) c = .ok l c' ↔
      ∃ a as d, l = a :: as ∧ item c = .ok a d ∧ items d = .ok as c' := by
  rw [Stateful.bind_eq_ok_iff]
  constructor
  · rintro ⟨a, d, ha, h⟩
    obtain ⟨as, e, has, hl⟩ := Stateful.bind_eq_ok_iff.1 h
    obtain ⟨rfl, rfl⟩ := Stateful.pure_eq_ok_iff.1 hl
    exact ⟨a, as, d, rfl, ha, has⟩
  · rintro ⟨a, as, d, rfl, ha, has⟩
    exact ⟨a, d, ha, Stateful.bind_eq_ok_iff.2 ⟨as, c', has, Stateful.pure_eq_ok_iff.2 ⟨rfl, rfl⟩⟩⟩

/-! ## Inverse reads -/

/-- The read `r` takes exactly what `write` makes of the values that are `valid`. -/
def Inverts (r : Reading α) (write : α → Bytes) (valid : α → Prop) : Prop :=
  ∀ (c c' : Cursor) (a : α), r c = .ok a c' ↔ valid a ∧ c.Passes (write a) c'

theorem inverts_pure (a : α) : (pure a : Reading α).Inverts (fun _ => []) (· = a) := by
  intro c c' b
  rw [Stateful.pure_eq_ok_iff, Cursor.passes_nil, eq_comm]

theorem Inverts.bind {r : Reading α} {f : α → Reading β} {write : α → Bytes} {valid : α → Prop}
    {write' : β → Bytes} {valid' : β → Prop} (hr : r.Inverts write valid) (part : β → α)
    (hf : ∀ a, valid a → (f a).Inverts write' fun b => part b = a ∧ valid' b) :
    (r >>= f).Inverts (fun b => write (part b) ++ write' b) fun b => valid (part b) ∧ valid' b := by
  intro c c' b
  rw [Stateful.bind_eq_ok_iff, Cursor.passes_append]
  constructor
  · rintro ⟨a, d, ha, hb⟩
    obtain ⟨hvalid, hd⟩ := (hr c d a).1 ha
    obtain ⟨⟨rfl, hvalid'⟩, hc'⟩ := (hf a hvalid d c' b).1 hb
    exact ⟨⟨hvalid, hvalid'⟩, d, hd, hc'⟩
  · rintro ⟨⟨hvalid, hvalid'⟩, d, hd, hc'⟩
    exact ⟨part b, d, (hr c d _).2 ⟨hvalid, hd⟩, (hf _ hvalid d c' b).2 ⟨⟨rfl, hvalid'⟩, hc'⟩⟩

theorem Inverts.congr {r : Reading α} {write write' : α → Bytes} {valid valid' : α → Prop}
    (hr : r.Inverts write valid) (hvalid : ∀ a, valid a ↔ valid' a)
    (hwrite : ∀ a, valid' a → write a = write' a) : r.Inverts write' valid' := by
  intro c c' a
  rw [hr c c' a, hvalid a]
  constructor
  · rintro ⟨ha, h⟩
    exact ⟨ha, hwrite a ha ▸ h⟩
  · rintro ⟨ha, h⟩
    exact ⟨ha, (hwrite a ha).symm ▸ h⟩

theorem inverts_take (n : Nat) (what : String) : (take n what).Inverts id (·.length = n) := by
  intro c c' bs
  rcases c with ⟨rest, position⟩
  rcases c' with ⟨rest', position'⟩
  simp only [take, id, Cursor.Passes]
  split
  · rename_i hshort
    have hlen : rest.length < n := by simpa using hshort
    constructor
    · intro h
      cases h
    · rintro ⟨rfl, rfl, -⟩
      simp at hlen
  · rename_i hlong
    have hlen : (rest.take n).length = n := by
      simp at hlong ⊢
      omega
    constructor
    · intro h
      cases h
      exact ⟨hlen, (List.take_append_drop n rest).symm, by rw [hlen]⟩
    · rintro ⟨rfl, rfl, rfl⟩
      simp

theorem inverts_word (what : String) : (word what).Inverts Bytes.ofWord fun _ => True := by
  have hvalue (bs : Bytes) (hbs : bs.length = 4) :
      (pure (Bytes.toWord bs) : Reading UInt32).Inverts (fun _ => []) fun w =>
        Bytes.ofWord w = bs ∧ True := by
    refine (inverts_pure (Bytes.toWord bs)).congr (fun w => ?_) fun _ _ => rfl
    constructor
    · rintro rfl
      exact ⟨Bytes.ofWord_toWord hbs, trivial⟩
    · rintro ⟨rfl, -⟩
      exact (Bytes.toWord_ofWord w).symm
  exact ((inverts_take 4 what).bind Bytes.ofWord hvalue).congr (by simp) (by simp)

/-- Read a word first, and then the rest of a value that the word is a part of. -/
theorem Inverts.afterWord (what : String) {f : UInt32 → Reading β} {write : β → Bytes}
    {valid : β → Prop} (part : β → UInt32)
    (hf : ∀ w, (f w).Inverts write fun b => part b = w ∧ valid b) :
    (word what >>= f).Inverts (fun b => Bytes.ofWord (part b) ++ write b) valid :=
  ((inverts_word what).bind part fun w _ => hf w).congr (fun _ => by simp) fun _ _ => rfl

theorem inverts_frame (what : String) :
    (frame what).Inverts Bytes.framed fun b => b.length < 2 ^ 32 := by
  have hbytes (n : UInt32) : (take n.toNat what).Inverts id fun b : Bytes =>
      UInt32.ofNat b.length = n ∧ b.length < 2 ^ 32 := by
    refine (inverts_take n.toNat what).congr (fun b => ?_) fun _ _ => rfl
    constructor
    · intro hb
      rw [hb]
      exact ⟨UInt32.ofNat_toNat, n.toNat_lt⟩
    · rintro ⟨rfl, hlt⟩
      rw [UInt32.toNat_ofNat', Nat.mod_eq_of_lt hlt]
  exact .afterWord what (fun b : Bytes => UInt32.ofNat b.length) hbytes

/-- Read a frame as the second part of a pair. -/
theorem inverts_pair_frame (what : String) (a : α) :
    (do return (a, ← frame what) : Reading (α × Bytes)).Inverts (fun p => p.2.framed) fun p =>
      p.1 = a ∧ p.2.length < 2 ^ 32 := by
  have hpair (b : Bytes) : (pure (a, b) : Reading (α × Bytes)).Inverts (fun _ => []) fun p =>
      p.2 = b ∧ p.1 = a := by
    refine (inverts_pure _).congr (fun p => ?_) fun _ _ => rfl
    rw [Prod.ext_iff, and_comm]
  refine ((inverts_frame what).bind Prod.snd fun b _ => hpair b).congr (fun _ => and_comm) ?_
  intro p _
  exact List.append_nil _

theorem inverts_frames (what : String) (n : Nat) : (frames what n).Inverts
    (·.flatMap Bytes.framed) fun bs => bs.length = n ∧ ∀ b ∈ bs, b.length < 2 ^ 32 := by
  induction n with
  | zero =>
    exact (inverts_pure []).congr (by simp +contextual) (by simp +contextual)
  | succ n ih =>
    intro c c' bs
    rw [frames, cons_eq_ok_iff]
    rcases bs with _ | ⟨a, as⟩
    · simp
    · have hlen : (a :: as).length = n + 1 ↔ as.length = n := by simp
      simp only [List.flatMap_cons, Cursor.passes_append, List.forall_mem_cons, hlen]
      constructor
      · rintro ⟨_, _, d, ⟨⟩, ha, has⟩
        obtain ⟨hlt, hd⟩ := (inverts_frame what c d a).1 ha
        obtain ⟨⟨hn, hall⟩, hc'⟩ := (ih d c' as).1 has
        exact ⟨⟨hn, hlt, hall⟩, d, hd, hc'⟩
      · rintro ⟨⟨hn, hlt, hall⟩, d, hd, hc'⟩
        exact ⟨a, as, d, rfl, (inverts_frame what c d a).2 ⟨hlt, hd⟩,
          (ih d c' as).2 ⟨⟨hn, hall⟩, hc'⟩⟩

/-! ## Sequences up to the end -/

theorem upTo_succ (item : Reading α) (n : Nat) (c : Cursor) :
    upTo item (n + 1) c = if c.rest.isEmpty then (pure [] : Reading (List α)) c
      else (do let a ← item; return a :: (← upTo item n) : Reading (List α)) c := by
  rw [upTo, Stateful.get_bind]
  cases c.rest.isEmpty <;> rfl

/-- At the end of the input there is nothing but the empty sequence of items. -/
theorem pure_nil_eq_ok_iff {write : α → Bytes} {valid : α → Prop} (hwrite : ∀ a, write a ≠ [])
    {c c' : Cursor} {as : List α} (hc : c.rest = []) :
    (pure [] : Reading (List α)) c = .ok as c' ↔
      (∀ a ∈ as, valid a) ∧ c.Passes (as.flatMap write) c' ∧ c'.rest = [] := by
  rw [Stateful.pure_eq_ok_iff]
  rcases as with _ | ⟨a, as⟩
  · simp only [List.flatMap_nil, Cursor.passes_nil, List.not_mem_nil, true_and]
    constructor
    · rintro rfl
      exact ⟨fun _ h => h.elim, rfl, hc⟩
    · rintro ⟨-, h, -⟩
      exact h
  · have hne := hwrite a
    simp [Cursor.Passes, hc, hne]

theorem upTo_eq_ok_iff {item : Reading α} {write : α → Bytes} {valid : α → Prop}
    (hitem : item.Inverts write valid) (hwrite : ∀ a, write a ≠ []) {n : Nat} {c c' : Cursor}
    {as : List α} (hn : c.rest.length ≤ n) :
    upTo item n c = .ok as c' ↔
      (∀ a ∈ as, valid a) ∧ c.Passes (as.flatMap write) c' ∧ c'.rest = [] := by
  induction n generalizing c as with
  | zero => exact pure_nil_eq_ok_iff hwrite (List.length_eq_zero_iff.1 (Nat.le_zero.1 hn))
  | succ n ih =>
    rw [upTo_succ]
    split
    · rename_i hempty
      exact pure_nil_eq_ok_iff hwrite (List.isEmpty_iff.1 hempty)
    · rename_i hnonempty
      rw [cons_eq_ok_iff]
      rcases as with _ | ⟨a, as⟩
      · -- There is input left, which the empty sequence does not account for.
        constructor
        · rintro ⟨_, _, _, h, -⟩
          cases h
        · rintro ⟨-, hpass, hend⟩
          rw [List.flatMap_nil, Cursor.passes_nil] at hpass
          simp [hpass, hend] at hnonempty
      · -- An item takes a byte or more, so that the fuel is enough for what it leaves.
        have hshorter : ∀ d, c.Passes (write a) d → d.rest.length ≤ n := by
          intro d hd
          have hlt := hd.rest_lt (hwrite a)
          omega
        simp only [List.flatMap_cons, Cursor.passes_append, List.forall_mem_cons]
        constructor
        · rintro ⟨_, _, d, ⟨⟩, ha, has⟩
          obtain ⟨hvalid, hd⟩ := (hitem c d a).1 ha
          obtain ⟨hall, hc', hend⟩ := (ih (hshorter d hd)).1 has
          exact ⟨⟨hvalid, hall⟩, ⟨d, hd, hc'⟩, hend⟩
        · rintro ⟨⟨hvalid, hall⟩, ⟨d, hd, hc'⟩, hend⟩
          exact ⟨a, as, d, rfl, (hitem c d a).2 ⟨hvalid, hd⟩,
            (ih (hshorter d hd)).2 ⟨hall, hc', hend⟩⟩

theorem toEnd_eq_ok_iff {item : Reading α} {write : α → Bytes} {valid : α → Prop}
    (hitem : item.Inverts write valid) (hwrite : ∀ a, write a ≠ []) {c c' : Cursor} {as : List α} :
    toEnd item c = .ok as c' ↔
      (∀ a ∈ as, valid a) ∧ c.Passes (as.flatMap write) c' ∧ c'.rest = [] :=
  upTo_eq_ok_iff hitem hwrite (Nat.le_refl _)

theorem runOn_eq_ok_iff {r : Reading α} {input : Bytes} {a : α} :
    r.runOn input = .ok a ↔ ∃ c', r ⟨input, 0⟩ = .ok a c' := by
  unfold runOn EStateM.run
  cases r ⟨input, 0⟩ with
  | ok b c => simp
  | error e c => simp

theorem map_runOn_eq_ok_iff {r : Reading α} {f : α → β} {input : Bytes} {b : β} :
    (r.runOn input).map f = .ok b ↔ ∃ a, r.runOn input = .ok a ∧ f a = b := by
  cases r.runOn input <;> simp [Except.map]

/-- Reading succeeds at the end of the input if and only if the input is what is taken. -/
theorem exists_passes_iff (input bs : Bytes) :
    (∃ c', Cursor.Passes ⟨input, 0⟩ bs c' ∧ c'.rest = []) ↔ bs = input := by
  constructor
  · rintro ⟨c', ⟨hrest, -⟩, hend⟩
    rw [hend, List.append_nil] at hrest
    exact hrest.symm
  · rintro rfl
    exact ⟨⟨[], 0 + bs.length⟩, ⟨(List.append_nil _).symm, rfl⟩, rfl⟩

/-- A sequence of items up to the end of the input is read back exactly as it is written. -/
theorem runOn_toEnd_eq_ok_iff {item : Reading α} {write : α → Bytes} {valid : α → Prop}
    (hitem : item.Inverts write valid) (hwrite : ∀ a, write a ≠ []) {input : Bytes}
    {as : List α} :
    (toEnd item).runOn input = .ok as ↔ (∀ a ∈ as, valid a) ∧ as.flatMap write = input := by
  rw [runOn_eq_ok_iff, ← exists_passes_iff input]
  constructor
  · rintro ⟨c', h⟩
    obtain ⟨hall, hpass⟩ := (toEnd_eq_ok_iff hitem hwrite).1 h
    exact ⟨hall, c', hpass⟩
  · rintro ⟨hall, c', hpass⟩
    exact ⟨c', (toEnd_eq_ok_iff hitem hwrite).2 ⟨hall, hpass⟩⟩

/-- What is written tells the items that it is written of. -/
theorem eq_of_flatMap_eq {item : Reading α} {write : α → Bytes} {valid : α → Prop}
    (hitem : item.Inverts write valid) (hwrite : ∀ a, write a ≠ []) {as bs : List α}
    (has : ∀ a ∈ as, valid a) (hbs : ∀ b ∈ bs, valid b) (h : as.flatMap write = bs.flatMap write) :
    as = bs := by
  have hread := (runOn_toEnd_eq_ok_iff hitem hwrite).2 ⟨has, h⟩
  rw [(runOn_toEnd_eq_ok_iff hitem hwrite).2 ⟨hbs, rfl⟩] at hread
  exact (Except.ok.inj hread).symm

end Reading

end CellMachine
