import CellMachine.Machine.Waiting
import CellMachine.Proofs.Machine.Schedule
import Mathlib.Data.List.Nodup

/-!
# Waiting for detached threads

This module proves that waiting for the detached threads of an execution misses none of them. The
invariant is that the handle of each is among those that have been joined, those that are to be
joined next, those in the list, or those that are owed by the thread that has started it. If nothing
is left to be joined and the list is empty, then all that has been started is over, the oldest
threads first: whoever owes a handle, or waits for another thread, is older than that one and is not
over itself.
-/

namespace CellMachine

namespace Machine

variable {o : Options} {m : Machine} {n k : Nat}

/-! ## What a turn starts -/

/-- An execution is a schedule, which includes the stop of what the main program has left behind. -/
theorem exists_play_of_ofMachine {fuel : Nat} {stop : Bool} {x : Execution}
    (h : Execution.ofMachine o fuel stop m = some (.ok x)) :
    ∃ es clock, (m.play o es).ending? 0 = some (.ok x.outcome, clock) ∧
      x.world = (m.play o es).world ∧ x.waitFault = (m.play o es).waitFault ∧
      (m.play o es).allEnded = true := by
  rcases exists_ending_of_ofMachine h with ⟨clock, hmain, hended, hworld, hfault⟩
  rcases exists_play_of_runUntil mainEnded o fuel m with ⟨es, hes⟩
  rcases exists_play_of_runUntil allEnded o fuel (m.released o fuel stop) with ⟨es', hes'⟩
  have hreleased : m.released o fuel stop = m.play o (es ++ if stop then [.stop] else []) := by
    rw [released, hes, play_append]
    cases stop <;> rfl
  rw [hes', hreleased, ← play_append] at hended hworld hfault
  refine ⟨_, clock, ?_, hworld, hfault, hended⟩
  rw [hes] at hmain
  rw [List.append_assoc, play_append]
  exact ending?_play hmain _

/-- The threads that a turn starts and that nobody waits for. -/
theorem detached_advance (o : Options) (m : Machine) (n : Nat) :
    ∃ started, (m.advance o n).detached = m.detached ++ started ∧ started.Nodup := by
  rcases advance_cases o m n with hsame | ⟨-, -, c, hdetached, -⟩
  · exact ⟨[], by rw [hsame, List.append_nil], List.nodup_nil⟩
  · exact ⟨_, hdetached, List.nodup_range'⟩

theorem ending?_of_allEnded (h : m.allEnded = true) (hn : n < m.threads.length) :
    (m.ending? n).isSome = true := by
  have hthread := List.all_eq_true.1 h m.threads[n] (List.getElem_mem hn)
  rw [ending?, List.getElem?_eq_getElem hn]
  split at hthread
  · rename_i hended
    rw [hended]
    rfl
  · cases hthread

end Machine

namespace Waiting

variable {o : Options} {w w' : Waiting} {n k : Nat}

/-! ## Threads that are over -/

theorem isClear_iff : w.isClear n = true ↔ ∀ x ∈ w.owed, x.1 ≠ n := by
  simp only [isClear, List.all_eq_true, decide_eq_true_eq]

theorem isOver_iff : w.isOver n = true ↔ (w.machine.ending? n).isSome ∧ w.isClear n = true :=
  Bool.and_eq_true_iff

theorem isOpen_iff :
    w.isOpen = true ↔ w.isOver 0 = true ∧ w.machine.joinFault? 0 = none := by
  rw [isOpen, Bool.and_eq_true_iff, Option.isNone_iff_eq_none]

/-- A turn changes nothing, or it starts threads that nobody waits for, and then perhaps one that
the thread waits for. -/
theorem turn_cases (o : Options) (w : Waiting) (n : Nat) :
    w.turn o n = w ∨ w.mayMove n = true ∧ w.machine.ending? n = none ∧
      n < w.machine.threads.length ∧ ∃ c,
        (w.turn o n) = { w with
          machine := w.machine.advance o n
          owed := w.owed ++ (List.range' w.machine.threads.length c).map fun k => (n, k) } ∧
        (w.machine.advance o n).detached =
          w.machine.detached ++ List.range' w.machine.threads.length c ∧
        ((w.machine.advance o n).threads.length = w.machine.threads.length + c ∨
          (w.machine.advance o n).threads.length = w.machine.threads.length + c + 1 ∧
            (w.turn o n).machine.Awaits n (w.machine.threads.length + c)) := by
  cases hmove : w.mayMove n with
  | false => exact .inl (by rw [turn, if_neg (by simp [hmove])])
  | true =>
    rcases w.machine.advance_cases o n with hsame | ⟨hn, hended, c, hdetached, hlength⟩
    · refine .inl ?_
      simp only [turn, hmove, if_true, hsame, List.drop_length, List.map_nil, List.append_nil]
    · have hturn : w.turn o n = { w with
          machine := w.machine.advance o n
          owed := w.owed ++ (List.range' w.machine.threads.length c).map fun k => (n, k) } := by
        simp only [turn, hmove, if_true, hdetached, List.drop_left]
      refine .inr ⟨rfl, hended, hn, c, hturn, hdetached, ?_⟩
      rw [hturn]
      exact hlength

/-- A thread that is over stays over. -/
theorem isOver_turn (h : w.isOver k = true) (n : Nat) : (w.turn o n).isOver k = true := by
  rcases turn_cases o w n with hsame | ⟨-, hended, -, c, hturn, -⟩
  · rwa [hsame]
  · rcases isOver_iff.1 h with ⟨hk, hclear⟩
    rcases Option.isSome_iff_exists.1 hk with ⟨x, hx⟩
    have hkn : n ≠ k := by
      rintro rfl
      cases hended.symm.trans hx
    rw [hturn, isOver_iff, isClear_iff]
    refine ⟨?_, fun y hy => ?_⟩
    · rw [Machine.ending?_advance hx]
      rfl
    · rcases List.mem_append.1 hy with hy | hy
      · exact isClear_iff.1 hclear y hy
      · rcases List.mem_map.1 hy with ⟨j, -, rfl⟩
        exact hkn

/-- The panic of a thread that is over stays the same. -/
theorem joinFault?_turn (h : w.isOver k = true) (n : Nat) :
    (w.turn o n).machine.joinFault? k = w.machine.joinFault? k := by
  rcases turn_cases o w n with hsame | ⟨-, -, -, c, hturn, -⟩
  · rw [hsame]
  · rcases Option.isSome_iff_exists.1 (isOver_iff.1 h).1 with ⟨x, hx⟩
    rw [hturn]
    change (w.machine.advance o n).joinFault? k = _
    rw [Machine.joinFault?, Machine.joinFault?, Machine.ending?_advance hx, hx]

theorem isOpen_turn (h : w.isOpen = true) (n : Nat) : (w.turn o n).isOpen = true := by
  rcases isOpen_iff.1 h with ⟨hover, hfault⟩
  rw [isOpen_iff, joinFault?_turn hover]
  exact ⟨isOver_turn hover n, hfault⟩

/-- Who waits for a thread goes on waiting until that one is over. -/
theorem awaits_turn (h : w.machine.Awaits k n) (j : Nat) :
    (w.turn o j).machine.Awaits k n ∨ (w.turn o j).isOver n = true := by
  rcases turn_cases o w j with hsame | ⟨hmove, hended, hj, c, hturn, -⟩
  · rw [hsame]
    exact .inl h
  · rcases h with ⟨e, i, cs, hthread⟩
    have hsame (h : (w.machine.advance o j).threads[k]? = w.machine.threads[k]?) :
        (w.turn o j).machine.Awaits k n := by
      refine ⟨e, i, cs, ?_⟩
      rw [hturn]
      exact h.trans hthread
    by_cases hkj : k = j
    · cases hkj
      cases hchild : w.machine.ending? n with
      | none => exact .inl (hsame (by rw [Machine.advance_of_waiting hthread hchild]))
      | some x =>
        simp only [mayMove, hthread, Bool.and_eq_true] at hmove
        exact .inr (isOver_turn (isOver_iff.2 ⟨hchild ▸ rfl, hmove.2⟩) k)
    · exact .inl (hsame (Machine.advance_threads_of_ne o hkj
        (List.getElem?_eq_some_iff.1 hthread).1))

/-! ## The invariant -/

structure Sound (w : Waiting) : Prop where
  bounded : ∀ n ∈ w.machine.detached, n < w.machine.threads.length
  nodup : w.machine.detached.Nodup
  -- Every handle of a detached thread is somewhere, and in one place only.
  handles : (w.joined ++ w.batch ++ w.handles ++ w.owed.map (·.2)).Perm w.machine.detached
  older : ∀ x ∈ w.owed, x.1 < x.2
  ended : ∀ n ∈ w.joined, w.isOver n = true
  -- Some older thread waits for what nobody else will ask for.
  awaited : ∀ n < w.machine.threads.length,
    n = 0 ∨ n ∈ w.machine.detached ∨ w.isOver n = true ∨ ∃ k < n, w.machine.Awaits k n
  failure : w.failure = w.joined.findSome? w.machine.joinFault?
  result : ∀ r, w.result = some r →
    r = w.failure.elim (.ok ()) .error ∧ w.isOpen = true ∧ w.batch = [] ∧ w.handles = []

/-- If the main program is over and nobody is left to be joined, then every thread is over. -/
theorem Sound.isOver_of_detached (h : w.Sound) (hmain : w.isOver 0 = true)
    (hdetached : ∀ n ∈ w.machine.detached, n ∉ w.owed.map (·.2) → w.isOver n = true) :
    ∀ n < w.machine.threads.length, w.isOver n = true := by
  intro n
  induction n using Nat.strongRecOn with
  | ind n ih =>
    intro hn
    rcases h.awaited n hn with rfl | hmem | hover | ⟨k, hkn, hawaits⟩
    · exact hmain
    · by_cases howed : n ∈ w.owed.map (·.2)
      · -- The thread that owes the handle is older, so it is over and owes nothing.
        rcases List.mem_map.1 howed with ⟨x, hx, rfl⟩
        have holder := h.older x hx
        have hover := ih x.1 holder (Nat.lt_trans holder hn)
        exact absurd rfl (isClear_iff.1 (isOver_iff.1 hover).2 x hx)
      · exact hdetached n hmem howed
    · exact hover
    · have hover := (isOver_iff.1 (ih k hkn (Nat.lt_trans hkn hn))).1
      rw [hawaits.ending?_eq_none] at hover
      cases hover

theorem Sound.owed_eq_nil (h : w.Sound)
    (hover : ∀ n < w.machine.threads.length, w.isOver n = true) : w.owed = [] := by
  apply List.eq_nil_iff_forall_not_mem.2
  intro x hx
  have hmem : x.2 ∈ w.machine.detached :=
    h.handles.subset (List.mem_append_right _ (List.mem_map_of_mem hx))
  have hlt := Nat.lt_trans (h.older x hx) (h.bounded x.2 hmem)
  exact isClear_iff.1 (isOver_iff.1 (hover x.1 hlt)).2 x hx rfl

/-- When the list is found empty, every thread is over, and every detached one has been joined. -/
theorem Sound.drained (h : w.Sound) (hopen : w.isOpen = true) (hbatch : w.batch = [])
    (hhandles : w.handles = []) :
    (∀ n < w.machine.threads.length, w.isOver n = true) ∧ w.owed = [] ∧
      w.joined.Perm w.machine.detached := by
  have hperm := h.handles
  rw [hbatch, hhandles, List.append_nil, List.append_nil] at hperm
  have hover := h.isOver_of_detached (isOpen_iff.1 hopen).1 fun n hn howed =>
    h.ended n ((List.mem_append.1 (hperm.mem_iff.2 hn)).resolve_right howed)
  have howed := h.owed_eq_nil hover
  rw [howed, List.map_nil, List.append_nil] at hperm
  exact ⟨hover, howed, hperm⟩

theorem findSome?_congr {α β : Type} {f g : α → Option β} {l : List α}
    (h : ∀ a ∈ l, f a = g a) : l.findSome? f = l.findSome? g := by
  induction l with
  | nil => rfl
  | cons a l ih =>
    rcases List.forall_mem_cons.1 h with ⟨ha, hl⟩
    rw [List.findSome?_cons, List.findSome?_cons, ha, ih hl]

theorem sound_start (world : World) (p : Program) (active : UInt32) :
    Sound { machine := .start o world p active } where
  bounded := nofun
  nodup := List.nodup_nil
  handles := .refl _
  older := nofun
  ended := nofun
  awaited := fun _ hn => .inl (Nat.lt_one_iff.1 hn)
  failure := rfl
  result := nofun

theorem Sound.turn (h : w.Sound) (n : Nat) : (w.turn o n).Sound := by
  rcases turn_cases o w n with hsame | ⟨-, -, hn, c, hturn, hdetached, hlength⟩
  · rwa [hsame]
  have hlt : w.machine.threads.length + c ≤ (w.machine.advance o n).threads.length := by omega
  have hbounded : ∀ k ∈ (w.machine.advance o n).detached,
      k < (w.machine.advance o n).threads.length := by
    intro k hk
    rw [hdetached, List.mem_append, List.mem_range'_1] at hk
    rcases hk with hk | hk
    · have hk := h.bounded k hk
      omega
    · omega
  have hnodup : (w.machine.advance o n).detached.Nodup := by
    rw [hdetached]
    refine List.nodup_append.2 ⟨h.nodup, List.nodup_range', fun k hk j hj => ?_⟩
    have hk := h.bounded k hk
    rw [List.mem_range'_1] at hj
    omega
  have hhandles : (w.joined ++ w.batch ++ w.handles ++ (w.owed ++
      (List.range' w.machine.threads.length c).map fun k => (n, k)).map (·.2)).Perm
        (w.machine.advance o n).detached := by
    rw [hdetached, List.map_append, List.map_map, ← List.append_assoc]
    refine h.handles.append ?_
    rw [show ((fun x : Nat × Nat => x.2) ∘ fun k => (n, k)) = id from rfl, List.map_id]
  have holder : ∀ x ∈ w.owed ++ (List.range' w.machine.threads.length c).map fun k => (n, k),
      x.1 < x.2 := by
    intro x hx
    rcases List.mem_append.1 hx with hx | hx
    · exact h.older x hx
    · rcases List.mem_map.1 hx with ⟨k, hk, rfl⟩
      rw [List.mem_range'_1] at hk
      change n < k
      omega
  have hawaited : ∀ k < (w.machine.advance o n).threads.length,
      k = 0 ∨ k ∈ (w.machine.advance o n).detached ∨ (w.turn o n).isOver k = true ∨
        ∃ j < k, (w.turn o n).machine.Awaits j k := by
    intro k hk
    by_cases hold : k < w.machine.threads.length
    · rcases h.awaited k hold with hk | hk | hk | ⟨j, hj, hk⟩
      · exact .inl hk
      · exact .inr (.inl (hdetached ▸ List.mem_append_left _ hk))
      · exact .inr (.inr (.inl (isOver_turn hk n)))
      · rcases awaits_turn hk n with hk | hk
        · exact .inr (.inr (.inr ⟨j, hj, hk⟩))
        · exact .inr (.inr (.inl hk))
    · by_cases hstarted : k < w.machine.threads.length + c
      · refine .inr (.inl ?_)
        rw [hdetached, List.mem_append, List.mem_range'_1]
        omega
      · rcases hlength with hlength | ⟨hlength, hwaits⟩
        · omega
        · have hlast : k = w.machine.threads.length + c := by omega
          exact .inr (.inr (.inr ⟨n, by omega, hlast ▸ hwaits⟩))
  have hover : ∀ k ∈ w.joined, (w.turn o n).isOver k = true :=
    fun k hk => isOver_turn (h.ended k hk) n
  have hfailure : w.failure = w.joined.findSome? (w.turn o n).machine.joinFault? := by
    rw [h.failure]
    exact findSome?_congr fun k hk => (joinFault?_turn (h.ended k hk) n).symm
  have hopen : ∀ r, w.result = some r → r = w.failure.elim (.ok ()) .error ∧
      (w.turn o n).isOpen = true ∧ w.batch = [] ∧ w.handles = [] := by
    intro r hr
    rcases h.result r hr with ⟨hr, hopen, hdrained⟩
    exact ⟨hr, isOpen_turn hopen n, hdrained⟩
  rw [hturn] at hawaited hover hfailure hopen ⊢
  exact ⟨hbounded, hnodup, hhandles, holder, hover, hawaited, hfailure, hopen⟩

/-- A thread that is over owes no handle that could be put into the list. -/
theorem isOver_push (h : w.isOver k = true) (n : Nat) : (w.push n).isOver k = true := by
  unfold Waiting.push
  split
  · rcases isOver_iff.1 h with ⟨hended, hclear⟩
    refine isOver_iff.2 ⟨hended, isClear_iff.2 fun x hx => ?_⟩
    exact isClear_iff.1 hclear x (List.mem_filter.1 hx).1
  · exact h

theorem Sound.push (h : w.Sound) (n : Nat) : (w.push n).Sound := by
  have hover {k : Nat} (hk : w.isOver k = true) : (w.push n).isOver k = true := isOver_push hk n
  unfold Waiting.push at hover ⊢
  split at hover
  · rename_i howed
    rw [if_pos howed]
    have hn : n ∈ w.owed.map (·.2) := by
      simpa using howed
    have hnodup : (w.owed.map (·.2)).Nodup :=
      (List.nodup_append.1 (h.handles.nodup_iff.2 h.nodup)).2.1
    have herase : (w.owed.filter (·.2 ≠ n)).map (·.2) = (w.owed.map (·.2)).erase n := by
      rw [hnodup.erase_eq_filter, List.filter_map]
      refine congrArg _ (List.filter_congr fun x _ => ?_)
      exact decide_not
    refine ⟨h.bounded, h.nodup, ?_, fun x hx => h.older x (List.mem_filter.1 hx).1,
      fun k hk => hover (h.ended k hk), fun k hk => ?_, h.failure, fun r hr => ?_⟩
    · refine List.Perm.trans ?_ h.handles
      change (w.joined ++ w.batch ++ (w.handles ++ [n]) ++
        (w.owed.filter fun x => x.2 ≠ n).map fun x => x.2).Perm _
      rw [herase, ← List.append_assoc, List.append_assoc _ [n]]
      exact (List.perm_cons_erase hn).symm.append_left _
    · rcases h.awaited k hk with hk | hk | hk | hk
      · exact .inl hk
      · exact .inr (.inl hk)
      · exact .inr (.inr (.inl (hover hk)))
      · exact .inr (.inr (.inr hk))
    · -- When waiting is at its end, no handle is owed.
      rcases h.result r hr with ⟨-, hopen, hbatch, hhandles⟩
      rw [(h.drained hopen hbatch hhandles).2.1] at hn
      cases hn
  · rename_i howed
    rw [if_neg howed]
    exact h

theorem Sound.take (h : w.Sound) (hresult : w.result = none) (hopen : w.isOpen = true)
    (hbatch : w.batch = []) : w.take.Sound := by
  unfold Waiting.take
  split
  · rename_i hempty
    have hhandles : w.handles = [] := List.isEmpty_iff.1 hempty
    refine ⟨h.bounded, h.nodup, h.handles, h.older, h.ended, h.awaited, h.failure, fun r hr => ?_⟩
    cases hr
    exact ⟨rfl, hopen, hbatch, hhandles⟩
  · refine ⟨h.bounded, h.nodup, ?_, h.older, h.ended, h.awaited, h.failure, fun r hr => ?_⟩
    · have hperm := h.handles
      rw [hbatch, List.append_nil] at hperm
      change (w.joined ++ w.handles ++ [] ++ w.owed.map fun x : Nat × Nat => x.2).Perm _
      rwa [List.append_nil]
    · cases hresult.symm.trans hr

theorem Sound.join {rest : List Nat} (h : w.Sound) (hresult : w.result = none)
    (hbatch : w.batch = n :: rest) (hn : w.isOver n = true) : (w.join n rest).Sound := by
  refine ⟨h.bounded, h.nodup, ?_, h.older, fun k hk => ?_, h.awaited, ?_, fun r hr => ?_⟩
  · have hperm := h.handles
    rw [hbatch] at hperm
    change (w.joined ++ [n] ++ rest ++ w.handles ++ w.owed.map fun x => x.2).Perm _
    rwa [List.append_assoc w.joined]
  · rcases List.mem_append.1 hk with hk | hk
    · exact h.ended k hk
    · rw [List.mem_singleton.1 hk]
      exact hn
  · change w.failure.or _ = (w.joined ++ [n]).findSome? _
    rw [List.findSome?_append, h.failure, List.findSome?_singleton]
    rfl
  · cases hresult.symm.trans hr

theorem Sound.wait (h : w.Sound) : w.wait.Sound := by
  unfold Waiting.wait
  split
  · exact h
  · rename_i hresult hbatch
    split
    · rename_i hopen
      exact h.take hresult hopen hbatch
    · exact h
  · rename_i n rest hresult hbatch
    split
    · rename_i hn
      exact h.join hresult hbatch hn
    · exact h

theorem Sound.after (h : w.Sound) (move : Move) : (w.after o move).Sound := by
  cases move with
  | turn n => exact h.turn n
  | push n => exact h.push n
  | wait => exact h.wait
  | stop | host refusal =>
    exact ⟨h.bounded, h.nodup, h.handles, h.older, h.ended, h.awaited, h.failure, h.result⟩

theorem Sound.play (h : w.Sound) (moves : List Move) : (w.play o moves).Sound := by
  induction moves generalizing w with
  | nil => exact h
  | cons move moves ih => exact ih (h.after move)

/-! ## The end of waiting -/

theorem play_append (moves moves' : List Move) :
    w.play o (moves ++ moves') = (w.play o moves).play o moves' :=
  List.foldl_append

/-- How much is left to be done. What is in the list has to be taken and joined. -/
def rest (w : Waiting) : Nat := 2 * w.handles.length + w.batch.length

/-- Waiting does not touch the threads. -/
theorem wait_machine (w : Waiting) : w.wait.machine = w.machine ∧ w.wait.owed = w.owed := by
  unfold wait
  split
  · exact ⟨rfl, rfl⟩
  · split
    · unfold take
      split
      · exact ⟨rfl, rfl⟩
      · exact ⟨rfl, rfl⟩
    · exact ⟨rfl, rfl⟩
  · split
    · exact ⟨rfl, rfl⟩
    · exact ⟨rfl, rfl⟩

theorem isOver_wait (w : Waiting) (n : Nat) : w.wait.isOver n = w.isOver n := by
  rw [isOver, isOver, isClear, isClear, w.wait_machine.1, w.wait_machine.2]

theorem isOpen_wait (w : Waiting) : w.wait.isOpen = w.isOpen := by
  rw [isOpen, isOpen, isOver_wait, w.wait_machine.1]

/-- Waiting comes to its end, or there is less left to be done. -/
theorem wait_progresses (hresult : w.result = none) (hopen : w.isOpen = true)
    (hover : ∀ n ∈ w.batch, w.isOver n = true) :
    w.wait.result.isSome = true ∨ w.wait.result = none ∧ w.wait.rest < w.rest := by
  cases hbatch : w.batch with
  | nil =>
    have hwait : w.wait = w.take := by
      simp only [wait, hresult, hbatch, hopen, if_true]
    rw [hwait]
    unfold take
    split
    · exact .inl rfl
    · rename_i hhandles
      have hpos : 0 < w.handles.length := by
        rw [List.length_pos_iff]
        exact fun h => hhandles (List.isEmpty_iff.2 h)
      refine .inr ⟨hresult, ?_⟩
      simp only [rest, hbatch, List.length_nil]
      omega
  | cons n rest =>
    have hn : w.isOver n = true := hover n (hbatch ▸ List.mem_cons_self)
    have hwait : w.wait = w.join n rest := by
      simp only [wait, hresult, hbatch, hn, if_true]
    rw [hwait]
    refine .inr ⟨hresult, ?_⟩
    simp only [Waiting.rest, join, hbatch, List.length_cons]
    omega

/-- Waiting comes to its end if all detached threads do. -/
theorem Sound.exists_result (h : w.Sound) (hopen : w.isOpen = true)
    (hover : ∀ n ∈ w.machine.detached, w.isOver n = true) :
    ∃ k, (w.play o (List.replicate k .wait)).result.isSome = true := by
  generalize hsize : w.rest = size
  induction size using Nat.strongRecOn generalizing w with
  | ind size ih =>
    cases hresult : w.result with
    | some r => exact ⟨0, Option.isSome_iff_exists.2 ⟨r, hresult⟩⟩
    | none =>
      have hbatch : ∀ n ∈ w.batch, w.isOver n = true := by
        intro n hn
        refine hover n (h.handles.subset ?_)
        exact List.mem_append_left _ (List.mem_append_left _ (List.mem_append_right _ hn))
      rcases wait_progresses hresult hopen hbatch with hend | ⟨-, hless⟩
      · exact ⟨1, hend⟩
      · have hover' : ∀ n ∈ w.wait.machine.detached, w.wait.isOver n = true := by
          intro n hn
          rw [w.wait_machine.1] at hn
          rw [isOver_wait]
          exact hover n hn
        rcases ih _ (hsize ▸ hless) h.wait (w.isOpen_wait.trans hopen) hover' rfl with ⟨k, hk⟩
        exact ⟨k + 1, hk⟩

/-- When every thread is over, nothing is started any more. -/
theorem Sound.turn_of_result {r : Except Fault Unit} (h : w.Sound) (hr : w.result = some r)
    (n : Nat) : w.turn o n = w := by
  rcases h.result r hr with ⟨-, hopen, hbatch, hhandles⟩
  rcases turn_cases o w n with hsame | ⟨-, hended, hn, -⟩
  · exact hsame
  · have hover := (isOver_iff.1 ((h.drained hopen hbatch hhandles).1 n hn)).1
    rw [hended] at hover
    cases hover

theorem Sound.detached_of_result {r : Except Fault Unit} (h : w.Sound) (hr : w.result = some r)
    (moves : List Move) : (w.play o moves).machine.detached = w.machine.detached := by
  induction moves generalizing w with
  | nil => rfl
  | cons move moves ih =>
    have hafter : (w.after o move).result = some r ∧
        (w.after o move).machine.detached = w.machine.detached := by
      cases move with
      | stop | host refusal => exact ⟨hr, rfl⟩
      | turn n =>
        rw [Waiting.after, h.turn_of_result hr n]
        exact ⟨hr, rfl⟩
      | push n =>
        refine ⟨?_, ?_⟩
        · rw [Waiting.after, Waiting.push]
          split
          · exact hr
          · exact hr
        · rw [Waiting.after, Waiting.push]
          split
          · rfl
          · rfl
      | wait =>
        have hwait : w.wait = w := by
          simp only [Waiting.wait, hr]
        rw [Waiting.after, hwait]
        exact ⟨hr, rfl⟩
    exact (ih (h.after move) hafter.1).trans hafter.2

theorem joinFault?_eq_some_iff {m : Machine} {f : Fault} : m.joinFault? n = some f ↔
    ∃ p t, m.ending? n = some (.error p, t) ∧ f = .join p.message := by
  unfold Machine.joinFault?
  split
  · rename_i p t hending
    rw [hending]
    constructor
    · intro h
      cases h
      exact ⟨p, t, rfl, rfl⟩
    · rintro ⟨q, u, hq, rfl⟩
      cases hq
      rfl
  · rename_i hnone
    constructor
    · intro h
      cases h
    · rintro ⟨p, t, hp, -⟩
      exact absurd hp (hnone p t)

/-- Waiting for the detached threads of an execution misses none of them, whatever the order in
which threads move and in which their handles are put into the list. When it is at its end, every
detached thread has ended and has been joined once, and none is started any more; the result is the
first panic in the order in which they were joined, if there is one. Waiting comes to its end if all
detached threads do. -/
theorem waits_for_all (o : Options) (world : World) (p : Program) (active : UInt32)
    (moves : List Move) :
    let w := play o { machine := .start o world p active } moves
    (∀ r, w.result = some r →
      (∀ n ∈ w.machine.detached, (w.machine.ending? n).isSome = true ∧ w.joined.count n = 1) ∧
      (∀ n ∈ w.joined, n ∈ w.machine.detached) ∧
      (∀ moves', (w.play o moves').machine.detached = w.machine.detached) ∧
      r = (w.joined.findSome? w.machine.joinFault?).elim (.ok ()) .error ∧
      ((∃ message, r = .error (.join message)) ↔
        ∃ n ∈ w.machine.detached, ∃ panic t, w.machine.ending? n = some (.error panic, t))) ∧
    (w.isOpen = true → (∀ n ∈ w.machine.detached, w.isOver n = true) →
      ∃ k, (w.play o (List.replicate k .wait)).result.isSome = true) := by
  intro w
  have hsound : w.Sound := (sound_start world p active).play moves
  refine ⟨fun r hr => ?_, fun hopen hover => hsound.exists_result hopen hover⟩
  rcases hsound.result r hr with ⟨hresult, hopen, hbatch, hhandles⟩
  rcases hsound.drained hopen hbatch hhandles with ⟨hover, -, hperm⟩
  rw [hsound.failure] at hresult
  refine ⟨fun n hn => ⟨?_, ?_⟩, fun n hn => hperm.mem_iff.1 hn,
    fun moves' => hsound.detached_of_result hr moves', hresult, ?_⟩
  · exact (isOver_iff.1 (hover n (hsound.bounded n hn))).1
  · rw [hperm.count_eq n]
    exact List.count_eq_one_of_mem hsound.nodup hn
  · rw [hresult]
    constructor
    · rintro ⟨message, h⟩
      cases hfailure : w.joined.findSome? w.machine.joinFault? with
      | none =>
        rw [hfailure] at h
        cases h
      | some f =>
        rcases List.exists_of_findSome?_eq_some hfailure with ⟨n, hn, hf⟩
        rcases joinFault?_eq_some_iff.1 hf with ⟨panic, t, hending, -⟩
        exact ⟨n, hperm.mem_iff.1 hn, panic, t, hending⟩
    · rintro ⟨n, hn, panic, t, hending⟩
      have hfault := joinFault?_eq_some_iff.2 ⟨panic, t, hending, rfl⟩
      cases hfailure : w.joined.findSome? w.machine.joinFault? with
      | none =>
        have hnone := List.findSome?_eq_none_iff.1 hfailure n (hperm.mem_iff.2 hn)
        cases hfault.symm.trans hnone
      | some f =>
        rcases List.exists_of_findSome?_eq_some hfailure with ⟨k, -, hf⟩
        rcases joinFault?_eq_some_iff.1 hf with ⟨panic', -, -, rfl⟩
        exact ⟨panic'.message, rfl⟩

/-- A program that starts a thread, which starts another one, which prints a number. -/
def starters : Program := .ofList [
  ⟨0, 2, [[0, 0, 0, 5], [0, 0, 0, 0]]⟩, ⟨1, 2, [[0, 0, 0, 7], [0, 0, 0, 1]]⟩,
  ⟨2, 2, [[0, 0, 0, 1], [0, 0, 0, 2]]⟩, ⟨3, 2, [[0, 0, 0, 2], [0, 0, 0, 3]]⟩,
  ⟨4, 88, [[0, 0, 0, 0], [0, 0, 0, 1]]⟩, ⟨5, 88, [[0, 0, 0, 2], [0, 0, 0, 3]]⟩,
  ⟨6, 30, [[0, 0, 0, 0], [0, 0, 0, 2]]⟩]

/-- The second thread is started when the first one has been taken from the list, and its handle is
put into the list when it has already ended by a panic. -/
theorem waits_for_all_starters :
    let w := play {} { machine := .start {} { sink := some { refuses := some "5" } } starters }
      (List.replicate 5 (.turn 0) ++
        [.push 1, .turn 0, .wait, .turn 1, .turn 2, .push 2, .turn 1] ++ List.replicate 4 .wait)
    w.result = some (.error (.join "sink refused 5")) ∧ w.machine.detached = [1, 2] ∧
      (∀ n ∈ w.machine.detached, (w.machine.ending? n).isSome = true ∧ w.joined.count n = 1) ∧
      ∃ n ∈ w.machine.detached, ∃ panic t, w.machine.ending? n = some (.error panic, t) := by
  intro w
  have hresult : w.result = some (.error (.join "sink refused 5")) := by decide +kernel
  rcases (waits_for_all {} _ starters 0 _).1 _ hresult with ⟨hjoined, -, -, -, hpanic⟩
  exact ⟨hresult, by decide +kernel, hjoined, hpanic.1 ⟨_, rfl⟩⟩

/-! ## Handles that are put into the list at once -/

/-- All handles that are owed are put into the list one after the other. -/
theorem play_push (w : Waiting) (owed : List (Nat × Nat)) (hnodup : (owed.map (·.2)).Nodup) :
    ({ w with owed } : Waiting).play o ((owed.map (·.2)).map .push) =
      { w with owed := [], handles := w.handles ++ owed.map (·.2) } := by
  induction owed generalizing w with
  | nil =>
    rw [List.map_nil, List.append_nil]
    rfl
  | cons x owed ih =>
    rw [List.map_cons] at hnodup
    rcases List.nodup_cons.1 hnodup with ⟨hx, hnodup⟩
    have hfilter : (x :: owed).filter (·.2 ≠ x.2) = owed := by
      rw [List.filter_cons_of_neg (by simp), List.filter_eq_self]
      intro y hy
      simp only [ne_eq, decide_not, Bool.not_eq_eq_eq_not, Bool.not_true, decide_eq_false_iff_not]
      exact fun h => hx (h ▸ List.mem_map_of_mem hy)
    have hpush : Waiting.push { w with owed := x :: owed } x.2 =
        { w with owed, handles := w.handles ++ [x.2] } := by
      simp only [Waiting.push, List.any_cons, decide_true, Bool.true_or, if_true, hfilter]
    have hrest := ih { w with handles := w.handles ++ [x.2] } hnodup
    rw [List.append_assoc] at hrest
    change Waiting.play o (Waiting.push { w with owed := x :: owed } x.2) _ = _
    rw [hpush]
    exact hrest

/-- Nothing is owed, and the threads are joined in the order in which they were spawned. -/
def Prompt (w : Waiting) : Prop :=
  w.owed = [] ∧ w.joined ++ w.batch ++ w.handles = w.machine.detached

theorem Prompt.exists_play_turn (h : w.Prompt) (n : Nat) : ∃ moves, (w.play o moves).Prompt ∧
    (w.play o moves).machine = w.machine.advance o n := by
  rcases h with ⟨howed, horder⟩
  have hclear (k : Nat) : w.isClear k = true := by
    rw [isClear_iff, howed]
    exact nofun
  have hmove : w.mayMove n = true := by
    rw [mayMove, hclear, Bool.true_and]
    split
    · exact hclear _
    · rfl
  rcases Machine.detached_advance o w.machine n with ⟨started, hdetached, hnodup⟩
  have hturn : w.turn o n =
      { w with machine := w.machine.advance o n, owed := started.map fun k => (n, k) } := by
    simp only [turn, hmove, if_true, hdetached, List.drop_left, howed, List.nil_append]
  have hsnd : (started.map fun k => (n, k)).map (·.2) = started := by
    rw [List.map_map]
    exact List.map_id started
  have hpush := play_push (o := o) { w with machine := w.machine.advance o n }
    (started.map fun k => (n, k)) (by rwa [hsnd])
  rw [hsnd, ← hturn] at hpush
  refine ⟨.turn n :: started.map .push, ?_⟩
  change ((w.turn o n).play o _).Prompt ∧ ((w.turn o n).play o _).machine = _
  rw [hpush]
  refine ⟨⟨rfl, ?_⟩, rfl⟩
  rw [hdetached, ← horder, List.append_assoc _ w.handles]

/-- Every schedule can be played such that no handle is owed for longer than a turn. -/
theorem exists_play_machine (h : w.Prompt) (es : List Event) :
    ∃ moves, (w.play o moves).Prompt ∧ (w.play o moves).machine = w.machine.play o es := by
  induction es generalizing w with
  | nil => exact ⟨[], h, rfl⟩
  | cons ev es ih =>
    have hev : ∃ moves, (w.play o moves).Prompt ∧
        (w.play o moves).machine = w.machine.after o ev := by
      cases ev with
      | stop => exact ⟨[.stop], h, rfl⟩
      | host refusal => exact ⟨[.host refusal], h, rfl⟩
      | turn n => exact h.exists_play_turn n
    rcases hev with ⟨moves, hprompt, hmachine⟩
    rcases ih hprompt with ⟨moves', hprompt', hmachine'⟩
    refine ⟨moves ++ moves', ?_, ?_⟩
    · rwa [Waiting.play_append]
    · rw [Waiting.play_append, hmachine', hmachine]
      rfl

theorem Prompt.wait (h : w.Prompt) : w.wait.Prompt := by
  rcases h with ⟨howed, horder⟩
  refine ⟨w.wait_machine.2.trans howed, ?_⟩
  rw [w.wait_machine.1, ← horder]
  unfold Waiting.wait
  split
  · rfl
  · rename_i hbatch
    split
    · unfold Waiting.take
      split
      · rfl
      · rw [hbatch, List.append_nil, List.append_nil]
    · rfl
  · rename_i hbatch
    split
    · rw [hbatch]
      simp only [Waiting.join, List.append_assoc, List.cons_append, List.nil_append]
    · rfl

theorem Prompt.play_wait (h : w.Prompt) (k : Nat) :
    (w.play o (List.replicate k .wait)).Prompt ∧
      (w.play o (List.replicate k .wait)).machine = w.machine := by
  induction k generalizing w with
  | zero => exact ⟨h, rfl⟩
  | succ k ih =>
    rcases ih h.wait with ⟨hprompt, hmachine⟩
    exact ⟨hprompt, hmachine.trans w.wait_machine.1⟩

/-- What an execution reports of its detached threads is what waiting for them comes to. -/
theorem exists_result_of_ofMachine {fuel : Nat} {stop : Bool} {world : World} {p : Program}
    {active : UInt32} {x : Execution}
    (h : Execution.ofMachine o fuel stop (.start o world p active) = some (.ok x)) :
    ∃ moves, (play o { machine := .start o world p active } moves).machine.world = x.world ∧
      (play o { machine := .start o world p active } moves).result =
        some (x.waitFault.elim (.ok ()) .error) := by
  rcases Machine.exists_play_of_ofMachine h with ⟨es, clock, hmain, hworld, hfault, hended⟩
  have hprompt : Prompt { machine := .start o world p active } := ⟨rfl, rfl⟩
  rcases exists_play_machine (o := o) hprompt es with ⟨moves, hprompt, hmachine⟩
  have hsound := (sound_start (o := o) world p active).play (o := o) moves
  generalize hw : play o { machine := .start o world p active } moves = w
    at hprompt hmachine hsound
  change w.machine = (Machine.start o world p active).play o es at hmachine
  rw [← hmachine] at hmain hworld hfault hended
  have hclear (n : Nat) : w.isClear n = true := by
    rw [isClear_iff, hprompt.1]
    exact nofun
  have hmainOver : w.isOver 0 = true := isOver_iff.2 ⟨hmain ▸ rfl, hclear 0⟩
  have hopen : w.isOpen = true := by
    refine isOpen_iff.2 ⟨hmainOver, ?_⟩
    rw [Machine.joinFault?, hmain]
  have hover : ∀ n ∈ w.machine.detached, w.isOver n = true := fun n hn =>
    isOver_iff.2 ⟨Machine.ending?_of_allEnded hended (hsound.bounded n hn), hclear n⟩
  rcases hsound.exists_result (o := o) hopen hover with ⟨k, hk⟩
  rcases Option.isSome_iff_exists.1 hk with ⟨r, hr⟩
  rcases hprompt.play_wait (o := o) k with ⟨⟨-, horder⟩, hmachine'⟩
  rcases (hsound.play (o := o) (List.replicate k .wait)).result r hr with ⟨rfl, -, hbatch, hhandles⟩
  have hfailure := (hsound.play (o := o) (List.replicate k .wait)).failure
  rw [hbatch, hhandles, List.append_nil, List.append_nil] at horder
  rw [horder, hmachine'] at hfailure
  refine ⟨moves ++ List.replicate k .wait, ?_⟩
  rw [Waiting.play_append, hw, hmachine', hr, hfailure, hworld, hfault]
  exact ⟨rfl, rfl⟩

end Waiting

end CellMachine
