import CellMachine.Proofs.Bundle
import CellMachine.Proofs.Instruction
import CellMachine.Proofs.Namespace

/-!
# Where the input ran out

This module proves what an error for want of bytes tells about the input, of programs, bundles and
snapshots alike (`truncation_pinpointed`). The bytes before the reported offset decide what is read
there and how long it is: with any others behind them the error is the same, as long as these are
too few.

`Reading.Pinpoints` says this of a read. It is composed as `Reading.Inverts` is, from which it takes
that a part that has been read stays what it is when the bytes behind it change. For the loop over
the items of an input, `Reading.Rounds` tells which items have been read before the loop ends.
-/

namespace CellMachine

namespace Reading

variable {α β : Type} {atEnd : Prop} {write : α → Bytes} {valid : α → Prop}

/-! ## Reads for which there are too few bytes -/

/-- Where `r` fails for want of bytes, it fails on the same account with every `d'` behind the bytes
that have been read, as long as it holds too few. If `atEnd` is true, `r` may succeed instead where
nothing at all is behind them. -/
def Pinpoints (atEnd : Prop) (r : Reading α) : Prop :=
  ∀ (c c' : Cursor) (what : String) (offset needed available : Nat),
    r c = .error (.truncated what offset needed available) c' →
      offset = c'.position ∧ available = c'.rest.length ∧ available < needed ∧
      ∃ bs, c.Passes bs c' ∧
        ∀ d d' : Cursor, d.position = c.position → d.Passes bs d' → d'.rest.length < needed →
          r d = .error (.truncated what offset needed d'.rest.length) d' ∨
            atEnd ∧ d'.rest = [] ∧ ∃ a, r d = .ok a d'

theorem pinpoints_pure (a : α) : (pure a : Reading α).Pinpoints atEnd := by
  intro c c' what offset needed available h
  cases h

theorem take_of_lt {n : Nat} {what : String} {c : Cursor} (h : c.rest.length < n) :
    take n what c = .error (.truncated what c.position n c.rest.length) c := by
  have hshort : (c.rest.take n).length < n := by
    rw [List.length_take]
    omega
  rw [take, if_pos hshort]

theorem take_eq_error {n : Nat} {what : String} {e : DecodeError} {c c' : Cursor}
    (h : take n what c = .error e c') :
    c.rest.length < n ∧ e = .truncated what c.position n c.rest.length ∧ c' = c := by
  rw [take] at h
  split at h
  · rename_i hshort
    rw [List.length_take] at hshort
    cases h
    exact ⟨by omega, rfl, rfl⟩
  · cases h

theorem pinpoints_take (n : Nat) (what : String) : (take n what).Pinpoints atEnd := by
  intro c c' what' offset needed available h
  obtain ⟨hshort, he, rfl⟩ := take_eq_error h
  cases he
  refine ⟨rfl, rfl, hshort, [], Cursor.passes_nil.2 rfl, ?_⟩
  intro d d' hposition hd hshort'
  obtain rfl := Cursor.passes_nil.1 hd
  rw [← hposition]
  exact .inl (take_of_lt hshort')

/-- A part that has been read is read again if the bytes that it takes are there. -/
theorem Inverts.again {r : Reading α} (hr : r.Inverts write valid) {c c' d d' : Cursor} {a : α}
    (h : r c = .ok a c') (hposition : d.position = c.position) (hd : d.Passes (write a) d') :
    r d = .ok a d' ∧ d'.position = c'.position := by
  obtain ⟨hvalid, hc⟩ := (hr c c' a).1 h
  exact ⟨(hr d d' a).2 ⟨hvalid, hd⟩, by rw [hd.2, hc.2, hposition]⟩

theorem Pinpoints.bind {r : Reading α} {f : α → Reading β} (hr : r.Inverts write valid)
    (hpin : r.Pinpoints False) (hf : ∀ a, (f a).Pinpoints atEnd) : (r >>= f).Pinpoints atEnd := by
  intro c c' what offset needed available h
  rcases Stateful.bind_eq_error_iff.1 h with hfirst | ⟨a, m, hfirst, hsecond⟩
  · obtain ⟨hoffset, havailable, hlt, bs, hpass, hsame⟩ := hpin _ _ _ _ _ _ hfirst
    refine ⟨hoffset, havailable, hlt, bs, hpass, fun d d' hposition hd hshort => .inl ?_⟩
    rcases hsame d d' hposition hd hshort with herror | ⟨hfalse, -⟩
    · exact Stateful.bind_of_error herror f
    · exact hfalse.elim
  · obtain ⟨-, hm⟩ := (hr c m a).1 hfirst
    obtain ⟨hoffset, havailable, hlt, bs, hpass, hsame⟩ := hf a _ _ _ _ _ _ hsecond
    refine ⟨hoffset, havailable, hlt, write a ++ bs, Cursor.passes_append.2 ⟨m, hm, hpass⟩, ?_⟩
    intro d d' hposition hd hshort
    obtain ⟨m', hm', hd'⟩ := Cursor.passes_append.1 hd
    obtain ⟨hagain, hposition'⟩ := hr.again hfirst hposition hm'
    rw [Stateful.bind_of_ok hagain]
    exact hsame m' d' hposition' hd' hshort

theorem Pinpoints.return {r : Reading α} (hr : r.Pinpoints atEnd) (g : α → β) :
    (do return g (← r) : Reading β).Pinpoints atEnd := by
  intro c c' what offset needed available h
  rcases Stateful.bind_eq_error_iff.1 h with hfirst | ⟨a, m, -, hsecond⟩
  · obtain ⟨hoffset, havailable, hlt, bs, hpass, hsame⟩ := hr _ _ _ _ _ _ hfirst
    refine ⟨hoffset, havailable, hlt, bs, hpass, fun d d' hposition hd hshort => ?_⟩
    rcases hsame d d' hposition hd hshort with herror | ⟨hend, hempty, a, hok⟩
    · exact .inl (Stateful.bind_of_error herror _)
    · exact .inr ⟨hend, hempty, g a, Stateful.bind_of_ok hok _⟩
  · cases hsecond

/-- A read may depend on where it starts, but not on the bytes behind its own. -/
theorem pinpoints_get {k : Cursor → Reading α} (hk : ∀ c, (k c).Pinpoints atEnd)
    (hposition : ∀ c d : Cursor, c.position = d.position → k c = k d) :
    (get >>= k).Pinpoints atEnd := by
  intro c c' what offset needed available h
  rw [Stateful.get_bind] at h
  obtain ⟨hoffset, havailable, hlt, bs, hpass, hsame⟩ := hk c _ _ _ _ _ _ h
  refine ⟨hoffset, havailable, hlt, bs, hpass, fun d d' hd hpass' hshort => ?_⟩
  rw [Stateful.get_bind, hposition d c hd]
  exact hsame d d' hd hpass' hshort

theorem pinpoints_word (what : String) : (word what).Pinpoints atEnd :=
  (pinpoints_take 4 what).return Bytes.toWord

theorem pinpoints_frame (what : String) : (frame what).Pinpoints atEnd :=
  .bind (inverts_word what) (pinpoints_word what) fun n => pinpoints_take n.toNat what

theorem pinpoints_frames (what : String) (n : Nat) : (frames what n).Pinpoints atEnd := by
  induction n with
  | zero => exact pinpoints_pure []
  | succ n ih =>
    exact .bind (inverts_frame what) (pinpoints_frame what) fun b => ih.return (b :: ·)

/-! ## The loop over the items of an input -/

/-- From `c` to `d`, the loop reads the items `as`, each of them because there is input left. -/
inductive Rounds (item : Reading α) : Cursor → List α → Cursor → Prop
  | done (c : Cursor) : Rounds item c [] c
  | round {c m d : Cursor} {a : α} {as : List α} (hleft : c.rest ≠ []) (ha : item c = .ok a m)
      (has : Rounds item m as d) : Rounds item c (a :: as) d

variable {item : Reading α}

theorem rounds_iff (hitem : item.Inverts write valid) (hwrite : ∀ a, write a ≠ [])
    {c d : Cursor} {as : List α} :
    Rounds item c as d ↔ (∀ a ∈ as, valid a) ∧ c.Passes (as.flatMap write) d := by
  induction as generalizing c with
  | nil =>
    rw [List.flatMap_nil, Cursor.passes_nil]
    constructor
    · rintro ⟨⟩
      exact ⟨by simp, rfl⟩
    · rintro ⟨-, rfl⟩
      exact .done c
  | cons a as ih =>
    rw [List.flatMap_cons, Cursor.passes_append, List.forall_mem_cons]
    constructor
    · intro h
      cases h with
      | round hleft ha has =>
        obtain ⟨hvalid, hm⟩ := (hitem _ _ _).1 ha
        obtain ⟨hall, hd⟩ := ih.1 has
        exact ⟨⟨hvalid, hall⟩, _, hm, hd⟩
    · rintro ⟨⟨hvalid, hall⟩, m, hm, hd⟩
      refine .round ?_ ((hitem _ _ _).2 ⟨hvalid, hm⟩) (ih.2 ⟨hall, hd⟩)
      rw [hm.1]
      exact List.append_ne_nil_of_left_ne_nil (hwrite a) _

theorem Inverts.rest_lt (hitem : item.Inverts write valid) (hwrite : ∀ a, write a ≠ [])
    {c m : Cursor} {a : α} (ha : item c = .ok a m) : m.rest.length < c.rest.length :=
  ((hitem c m a).1 ha).2.rest_lt (hwrite a)

theorem upTo_of_ne_nil {n : Nat} {c : Cursor} (hleft : c.rest ≠ []) :
    upTo item (n + 1) c =
      (do let a ← item; return a :: (← upTo item n) : Reading (List α)) c := by
  rw [upTo_succ, if_neg fun h => hleft (List.isEmpty_iff.1 h)]

/-- The loop ends: with the items of the rounds when no input is left, or with the error of the
first item that cannot be read. -/
theorem upTo_ends (hitem : item.Inverts write valid) (hwrite : ∀ a, write a ≠ []) {n : Nat}
    {c : Cursor} (hn : c.rest.length ≤ n) :
    ∃ as d, Rounds item c as d ∧
      (d.rest = [] ∧ upTo item n c = .ok as d ∨
        d.rest ≠ [] ∧ ∃ e d', item d = .error e d' ∧ upTo item n c = .error e d') := by
  induction n generalizing c with
  | zero => exact ⟨[], c, .done c, .inl ⟨List.length_eq_zero_iff.1 (Nat.le_zero.1 hn), rfl⟩⟩
  | succ n ih =>
    by_cases hleft : c.rest = []
    · have hempty : upTo item (n + 1) c = .ok [] c := by
        rw [upTo_succ, if_pos (List.isEmpty_iff.2 hleft)]
        rfl
      exact ⟨[], c, .done c, .inl ⟨hleft, hempty⟩⟩
    · rw [upTo_of_ne_nil hleft]
      cases ha : item c with
      | error e d' =>
        exact ⟨[], c, .done c, .inr ⟨hleft, e, d', ha, Stateful.bind_of_error ha _⟩⟩
      | ok a m =>
        have hshorter := hitem.rest_lt hwrite ha
        obtain ⟨as, d, hrounds, hend⟩ := ih (c := m) (by omega)
        refine ⟨a :: as, d, .round hleft ha hrounds, ?_⟩
        rw [Stateful.bind_of_ok ha]
        rcases hend with ⟨hempty, hok⟩ | ⟨hleft', e, d', hfail, herror⟩
        · exact .inl ⟨hempty, Stateful.bind_of_ok hok _⟩
        · exact .inr ⟨hleft', e, d', hfail, Stateful.bind_of_error herror _⟩

theorem upTo_of_rounds (hitem : item.Inverts write valid) (hwrite : ∀ a, write a ≠ [])
    {c d d' : Cursor} {as : List α} {e : DecodeError} (hrounds : Rounds item c as d)
    (hleft : d.rest ≠ []) (hfail : item d = .error e d') {n : Nat} (hn : c.rest.length ≤ n) :
    upTo item n c = .error e d' := by
  induction hrounds generalizing n with
  | done c =>
    obtain ⟨n, rfl⟩ := Nat.exists_eq_succ_of_ne_zero (n := n)
      (by have := List.length_pos_iff.2 hleft; omega)
    rw [Nat.succ_eq_add_one, upTo_of_ne_nil hleft]
    exact Stateful.bind_of_error hfail _
  | round hleft' ha _ ih =>
    have hshorter := hitem.rest_lt hwrite ha
    obtain ⟨n, rfl⟩ := Nat.exists_eq_succ_of_ne_zero (n := n) (by omega)
    rw [Nat.succ_eq_add_one, upTo_of_ne_nil hleft', Stateful.bind_of_ok ha]
    exact Stateful.bind_of_error (ih hleft hfail (by omega)) _

/-- The loop over items that pinpoint may end in between two items instead. -/
theorem pinpoints_toEnd (hitem : item.Inverts write valid) (hwrite : ∀ a, write a ≠ [])
    (hpin : item.Pinpoints False) : (toEnd item).Pinpoints True := by
  intro c c' what offset needed available h
  obtain ⟨as, m, hrounds, hend⟩ := upTo_ends hitem hwrite (Nat.le_refl c.rest.length)
  have hsame : toEnd item c = upTo item c.rest.length c := rfl
  rcases hend with ⟨-, hok⟩ | ⟨-, e, d', hfail, herror⟩
  · rw [hsame, hok] at h
    cases h
  · rw [hsame, herror] at h
    cases h
    obtain ⟨hall, hm⟩ := (rounds_iff hitem hwrite).1 hrounds
    obtain ⟨hoffset, havailable, hlt, bs, hpass, hitem'⟩ := hpin _ _ _ _ _ _ hfail
    refine ⟨hoffset, havailable, hlt, as.flatMap write ++ bs,
      Cursor.passes_append.2 ⟨m, hm, hpass⟩, ?_⟩
    intro d d' hposition hd hshort
    obtain ⟨m', hm', hd'⟩ := Cursor.passes_append.1 hd
    have hrounds' := (rounds_iff hitem hwrite).2 ⟨hall, hm'⟩
    by_cases hleft : m'.rest = []
    · -- Nothing is behind the items that have been read, and so nothing behind `bs` either.
      obtain ⟨rfl, hempty⟩ := List.append_eq_nil_iff.1 (hd'.1.symm.trans hleft)
      obtain rfl := Cursor.passes_nil.1 hd'
      exact .inr ⟨trivial, hempty, as, (toEnd_eq_ok_iff hitem hwrite).2 ⟨hall, hm', hempty⟩⟩
    · have hposition' : m'.position = m.position := by
        rw [hm'.2, hm.2, hposition]
      rcases hitem' m' d' hposition' hd' hshort with herror' | ⟨hfalse, -⟩
      · exact .inl (upTo_of_rounds hitem hwrite hrounds' hleft herror' (Nat.le_refl _))
      · exact hfalse.elim

/-! ## Whole inputs -/

theorem map_runOn_eq_error_iff {r : Reading α} {f : α → β} {b : Bytes} {e : DecodeError} :
    (r.runOn b).map f = .error e ↔ ∃ c, r ⟨b, 0⟩ = .error e c := by
  unfold runOn EStateM.run
  cases r ⟨b, 0⟩ with
  | ok a c => simp [Except.map]
  | error e' c => simp [Except.map]

/-- The loop over `item` from `c` on comes to an end whatever the input is: every round takes `size`
bytes or more. The decoder's `result` is what the rounds come to. -/
structure Terminates (item : Reading α) (size : Nat) (c : Cursor) (finish : List α → β)
    (result : Except DecodeError β) : Prop where
  takes : ∀ as d, Rounds item c as d → ∃ bs, c.Passes bs d ∧ size * as.length ≤ bs.length
  ends : ∃ as d, Rounds item c as d ∧
    (d.rest = [] ∧ result = .ok (finish as) ∨
      d.rest ≠ [] ∧ ∃ e d', item d = .error e d' ∧ result = .error e)

theorem le_length_flatMap {size : Nat} (hsize : ∀ a, size ≤ (write a).length) (as : List α) :
    size * as.length ≤ (as.flatMap write).length := by
  induction as with
  | nil => exact Nat.le_refl _
  | cons a as ih =>
    have ha := hsize a
    rw [List.flatMap_cons, List.length_append, List.length_cons, Nat.mul_succ]
    omega

theorem terminates_of_inverts {size : Nat} (hitem : item.Inverts write valid)
    (hsize : ∀ a, size ≤ (write a).length) (hpos : 0 < size) {c : Cursor} {finish : List α → β}
    {result : Except DecodeError β}
    (hok : ∀ as d, toEnd item c = .ok as d → result = .ok (finish as))
    (herror : ∀ e d, toEnd item c = .error e d → result = .error e) :
    Terminates item size c finish result := by
  have hwrite (a : α) : write a ≠ [] :=
    List.length_pos_iff.1 (Nat.lt_of_lt_of_le hpos (hsize a))
  refine ⟨fun as d h => ?_, ?_⟩
  · obtain ⟨-, hd⟩ := (rounds_iff hitem hwrite).1 h
    exact ⟨_, hd, le_length_flatMap hsize as⟩
  · obtain ⟨as, d, hrounds, hend⟩ := upTo_ends hitem hwrite (Nat.le_refl c.rest.length)
    refine ⟨as, d, hrounds, ?_⟩
    rcases hend with ⟨hempty, h⟩ | ⟨hleft, e, d', hfail, h⟩
    · exact .inl ⟨hempty, hok as d h⟩
    · exact .inr ⟨hleft, e, d', hfail, herror e d' h⟩

theorem terminates_runOn {size : Nat} (hitem : item.Inverts write valid)
    (hsize : ∀ a, size ≤ (write a).length) (hpos : 0 < size) (finish : List α → β) (b : Bytes) :
    Terminates item size ⟨b, 0⟩ finish (((toEnd item).runOn b).map finish) := by
  refine terminates_of_inverts hitem hsize hpos (fun as d h => ?_) fun e d h => ?_
  · exact map_runOn_eq_ok_iff.2 ⟨as, runOn_eq_ok_iff.2 ⟨d, h⟩, rfl⟩
  · exact map_runOn_eq_error_iff.2 ⟨d, h⟩

end Reading

section Decoders

variable {α β : Type} {decode : Bytes → Except DecodeError α}

/-- Where `decode` fails for want of bytes, its error tells how many there are, and that they are
too few. What is read there, where and how long it is comes from the bytes before it: another input
that begins with these fails in the same way as long as it is too short too, unless it ends right
there, between two items. -/
def SharesTruncation (decode : Bytes → Except DecodeError α) : Prop :=
  ∀ (b : Bytes) (what : String) (offset needed available : Nat),
    decode b = .error (.truncated what offset needed available) →
      offset + available = b.length ∧ available < needed ∧
      ∀ b', b.take offset <+: b' → b'.length < offset + needed →
        decode b' = .error (.truncated what offset needed (b'.length - offset)) ∨
          b' = b.take offset ∧ ∃ v, decode b' = .ok v

theorem sharesTruncation_runOn {r : Reading α} (hr : r.Pinpoints True) (f : α → β) :
    SharesTruncation fun b => (r.runOn b).map f := by
  intro b what offset needed available h
  obtain ⟨c, hc⟩ := Reading.map_runOn_eq_error_iff.1 h
  obtain ⟨rfl, rfl, hlt, bs, ⟨hrest, hposition⟩, hsame⟩ := hr _ _ _ _ _ _ hc
  have hb : b = bs ++ c.rest := hrest
  have hoffset : c.position = bs.length := by simpa using hposition
  have htake : b.take c.position = bs := by
    rw [hb, hoffset, List.take_left]
  refine ⟨?_, hlt, ?_⟩
  · rw [hb, hoffset, List.length_append]
  · rw [htake]
    rintro _ ⟨t, rfl⟩ hshort
    rw [hoffset, List.length_append] at hshort
    have ht : t.length < needed := by omega
    have hpass : Cursor.Passes ⟨bs ++ t, 0⟩ bs ⟨t, c.position⟩ := ⟨rfl, hposition⟩
    rcases hsame ⟨bs ++ t, 0⟩ ⟨t, c.position⟩ rfl hpass ht with herror | ⟨-, hempty, a, hok⟩
    · refine .inl (Reading.map_runOn_eq_error_iff.2 ⟨⟨t, c.position⟩, ?_⟩)
      rw [herror, hoffset, List.length_append, Nat.add_sub_cancel_left]
    · obtain rfl : t = [] := hempty
      exact .inr ⟨List.append_nil bs, f a,
        Reading.map_runOn_eq_ok_iff.2 ⟨a, Reading.runOn_eq_ok_iff.2 ⟨_, hok⟩, rfl⟩⟩

/-- Where `decode` fails for want of bytes, an input that goes on fails in the same way until what
is read there is complete, and no other input with the bytes before that place fails earlier, or
there in another way. -/
def PinpointsTruncation (decode : Bytes → Except DecodeError α) : Prop :=
  ∀ (b : Bytes) (what : String) (offset needed available : Nat),
    decode b = .error (.truncated what offset needed available) →
      offset + available = b.length ∧ available < needed ∧
      (∀ b', b <+: b' → b'.length < offset + needed →
        decode b' = .error (.truncated what offset needed (b'.length - offset))) ∧
      (∀ b', b.take offset <+: b' → b'.length < offset + needed →
        decode b' = .error (.truncated what offset needed (b'.length - offset)) ∨
          b' = b.take offset ∧ ∃ v, decode b' = .ok v) ∧
      ∀ b' what' offset' needed' available', b'.take offset = b.take offset →
        decode b' = .error (.truncated what' offset' needed' available') → offset' ≤ offset →
          what' = what ∧ offset' = offset ∧ needed' = needed

theorem SharesTruncation.pinpoints (h : SharesTruncation decode) : PinpointsTruncation decode := by
  intro b what offset needed available hb
  obtain ⟨hlen, hlt, hshares⟩ := h _ _ _ _ _ hb
  refine ⟨hlen, hlt, fun b' hb' hshort => ?_, hshares, ?_⟩
  · have hprefix := (List.take_prefix offset b).trans hb'
    rcases hshares b' hprefix hshort with herror | ⟨hshorter, v, hok⟩
    · exact herror
    · -- An input that extends `b` and is a part of it is `b` itself, which is not decoded.
      have heq : b = b' := hb'.eq_of_length_le (hshorter ▸ List.length_take_le' offset b)
      rw [← heq, hb] at hok
      cases hok
  · intro b' what' offset' needed' available' htake hb' hle
    obtain ⟨hlen', hlt', hshares'⟩ := h _ _ _ _ _ hb'
    by_cases hshort : b'.length < offset + needed
    · rcases hshares b' (htake ▸ List.take_prefix offset b') hshort with herror | ⟨-, v, hok⟩
      · rw [hb'] at herror
        cases herror
        exact ⟨rfl, rfl, rfl⟩
      · rw [hb'] at hok
        cases hok
    · -- Then `b` is the one that is too short for what is read in `b'`.
      have htake' : b'.take offset' = b.take offset' := by
        rw [← Nat.min_eq_left hle, ← List.take_take, htake, List.take_take]
      rcases hshares' b (htake' ▸ List.take_prefix offset' b) (by omega) with herror | ⟨-, v, hok⟩
      · rw [hb] at herror
        cases herror
        exact ⟨rfl, rfl, rfl⟩
      · rw [hb] at hok
        cases hok

end Decoders

/-! ## Programs, bundles and snapshots -/

namespace Instruction

theorem le_length_encode (i : Instruction) : 12 ≤ i.encode.length := by
  rw [length_encode, encodedLength_eq]
  exact Nat.le_add_right _ _

theorem pinpoints_read : read.Pinpoints False :=
  .bind (Reading.inverts_word _) (Reading.pinpoints_word _) fun line =>
    .bind (Reading.inverts_word _) (Reading.pinpoints_word _) fun opcode =>
      .bind (Reading.inverts_word _) (Reading.pinpoints_word _) fun count =>
        (Reading.pinpoints_frames _ count.toNat).return fun args =>
          (⟨line, opcode, args⟩ : Instruction)

theorem decodeAll_eq_map : decodeAll = fun b => ((Reading.toEnd read).runOn b).map id := by
  funext b
  rw [Except.map_id]
  rfl

end Instruction

namespace Namespace

theorem le_length_record (cell : UInt32 × Bytes) : 8 ≤ (record cell).length := by
  rw [record, List.length_append, Bytes.length_ofWord, Bytes.length_framed]
  omega

theorem pinpoints_readCell : readCell.Pinpoints False :=
  .bind (Reading.inverts_word _) (Reading.pinpoints_word _) fun address =>
    (Reading.pinpoints_frame _).return (address, ·)

end Namespace

namespace Bundle

theorem le_length_packed (file : String × Bytes) : 8 ≤ (packed file).length := by
  rw [packed, List.length_append, Bytes.length_framed, Bytes.length_framed]
  omega

theorem pinpoints_readFile : readFile.Pinpoints False := by
  refine Reading.pinpoints_get (fun c => ?_) fun c d hposition => ?_
  · refine .bind (Reading.inverts_frame _) (Reading.pinpoints_frame _) fun bytes => ?_
    cases Text.decode? bytes with
    | none =>
      intro c c' what offset needed available h
      cases h
    | some name => exact (Reading.pinpoints_frame _).return (name, ·)
  · simp only [hposition]

theorem pinpoints_readAll : readAll.Pinpoints True :=
  .bind (Reading.inverts_frame _) (Reading.pinpoints_frame _) fun main =>
    (Reading.pinpoints_toEnd inverts_readFile packed_ne_nil pinpoints_readFile).return (main, ·)

/-- A bundle breaks off within its program, or the loop over its files ends. -/
theorem decode_terminates (b : Bytes) :
    (∃ e c, Reading.frame "bundle main program" ⟨b, 0⟩ = .error e c ∧ decode b = .error e) ∨
      ∃ main c, Reading.frame "bundle main program" ⟨b, 0⟩ = .ok main c ∧
        Reading.Terminates readFile 8 c (fun files => ⟨main, OrderedMap.ofList files⟩)
          (decode b) := by
  cases hmain : Reading.frame "bundle main program" ⟨b, 0⟩ with
  | error e c =>
    refine .inl ⟨e, c, rfl, Reading.map_runOn_eq_error_iff.2 ⟨c, ?_⟩⟩
    exact Stateful.bind_of_error hmain _
  | ok main c =>
    refine .inr ⟨main, c, rfl, ?_⟩
    refine Reading.terminates_of_inverts inverts_readFile le_length_packed (by decide)
      (fun files d h => ?_) fun e d h => ?_
    · have hread : readAll ⟨b, 0⟩ = .ok (main, files) d := by
        rw [readAll, Stateful.bind_of_ok hmain]
        exact Stateful.bind_of_ok h _
      exact Reading.map_runOn_eq_ok_iff.2 ⟨_, Reading.runOn_eq_ok_iff.2 ⟨d, hread⟩, rfl⟩
    · have hread : readAll ⟨b, 0⟩ = .error e d := by
        rw [readAll, Stateful.bind_of_ok hmain]
        exact Stateful.bind_of_error h _
      exact Reading.map_runOn_eq_error_iff.2 ⟨d, hread⟩

end Bundle

/-- An error for want of bytes tells where the input ran out, and the bytes before that place decide
it. Every decoder comes to an end, as each of its rounds takes bytes. -/
theorem truncation_pinpointed :
    PinpointsTruncation Instruction.decodeAll ∧ PinpointsTruncation Bundle.decode ∧
    PinpointsTruncation Namespace.ofSnapshot ∧
    ∀ b : Bytes,
      Reading.Terminates Instruction.read 12 ⟨b, 0⟩ id (Instruction.decodeAll b) ∧
      ((∃ e c, Reading.frame "bundle main program" ⟨b, 0⟩ = .error e c ∧
          Bundle.decode b = .error e) ∨
        ∃ main c, Reading.frame "bundle main program" ⟨b, 0⟩ = .ok main c ∧
          Reading.Terminates Bundle.readFile 8 c (fun files => ⟨main, OrderedMap.ofList files⟩)
            (Bundle.decode b)) ∧
      Reading.Terminates Namespace.readCell 8 ⟨b, 0⟩ OrderedMap.ofList
        (Namespace.ofSnapshot b) := by
  have hprogram := Reading.pinpoints_toEnd Instruction.inverts_read Instruction.encode_ne_nil
    Instruction.pinpoints_read
  have hsnapshot := Reading.pinpoints_toEnd Namespace.inverts_readCell Namespace.record_ne_nil
    Namespace.pinpoints_readCell
  refine ⟨?_, (sharesTruncation_runOn Bundle.pinpoints_readAll _).pinpoints,
    (sharesTruncation_runOn hsnapshot _).pinpoints, fun b => ⟨?_, Bundle.decode_terminates b, ?_⟩⟩
  · rw [Instruction.decodeAll_eq_map]
    exact (sharesTruncation_runOn hprogram id).pinpoints
  · rw [Instruction.decodeAll_eq_map]
    exact Reading.terminates_runOn Instruction.inverts_read Instruction.le_length_encode
      (by decide) id b
  · exact Reading.terminates_runOn Namespace.inverts_readCell Namespace.le_length_record
      (by decide) OrderedMap.ofList b

/-- Inputs that end within an argument, within the length of a file's data and before the value of a
cell, and the same inputs with a part of what is missing. -/
theorem truncation_pinpointed_cut :
    let program : Bytes := [0, 0, 0, 1, 0, 0, 0, 5, 0, 0, 0, 1, 0, 0, 0, 3, 7]
    let bundle : Bytes := [0, 0, 0, 0, 0, 0, 0, 1, 97, 0, 0]
    let snapshot : Bytes := [0, 0, 0, 9, 255, 255, 255, 255]
    Instruction.decodeAll program = .error (.truncated "argument" 16 3 1) ∧
    Instruction.decodeAll (program ++ [8]) = .error (.truncated "argument" 16 3 2) ∧
    Bundle.decode bundle = .error (.truncated "bundle file data" 9 4 2) ∧
    Bundle.decode (bundle ++ [0]) = .error (.truncated "bundle file data" 9 4 3) ∧
    Namespace.ofSnapshot snapshot = .error (.truncated "snapshot value" 8 4294967295 0) ∧
    Namespace.ofSnapshot (snapshot ++ [1, 2]) =
      .error (.truncated "snapshot value" 8 4294967295 2) := by
  intro program bundle snapshot
  have hprogram : Instruction.decodeAll program = .error (.truncated "argument" 16 3 1) := by
    decide +kernel
  have hbundle : Bundle.decode bundle = .error (.truncated "bundle file data" 9 4 2) := by
    decide +kernel
  have hsnapshot :
      Namespace.ofSnapshot snapshot = .error (.truncated "snapshot value" 8 4294967295 0) := by
    decide +kernel
  obtain ⟨-, -, hprogram', -⟩ := truncation_pinpointed.1 _ _ _ _ _ hprogram
  obtain ⟨-, -, hbundle', -⟩ := truncation_pinpointed.2.1 _ _ _ _ _ hbundle
  obtain ⟨-, -, hsnapshot', -⟩ := truncation_pinpointed.2.2.1 _ _ _ _ _ hsnapshot
  exact ⟨hprogram, hprogram' _ (List.prefix_append _ _) (by decide),
    hbundle, hbundle' _ (List.prefix_append _ _) (by decide),
    hsnapshot, hsnapshot' _ (List.prefix_append _ _) (by decide)⟩

end CellMachine
