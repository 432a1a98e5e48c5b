import CellMachine.Proofs.Machine.Schedule
import Mathlib.Logic.Relation

/-!
# Executions without detached threads

As long as a machine starts no thread that nobody waits for, at most one of its threads can move:
the threads that have not ended wait for one another in a row, and only the last of them has
something to do. So it does not matter in which order the threads have their turns, and there is
only one way for the main program to come to its end.
-/

namespace CellMachine

open Relation

namespace Machine

variable {o : Options} {m : Machine} {j k n : Nat} {ns ns' : List Nat}

/-- Every thread but the first has ended, or an older one waits for it. -/
def Sequential (m : Machine) : Prop :=
  ∀ n, 0 < n → n < m.threads.length → m.ending? n = none → ∃ k < n, m.Awaits k n

theorem sequential_start (o : Options) (world : World) (p : Program) (active : UInt32) :
    (start o world p active).Sequential :=
  fun _ hpos hn _ => absurd hn (Nat.not_lt.2 hpos)

structure Moves (m : Machine) (n : Nat) : Prop where
  lt : n < m.threads.length
  goesOn : m.ending? n = none
  freed : ∀ c, m.Awaits n c → m.ending? c ≠ none

theorem advance_of_not_moves (o : Options) (h : ¬m.Moves n) : m.advance o n = m := by
  cases hthread : m.threads[n]? with
  | none => simp only [advance, hthread]
  | some thread =>
    have hn := (List.getElem?_eq_some_iff.1 hthread).1
    cases thread with
    | ended result clock =>
      have hending : m.ending? n = some (result, clock) := by simp only [ending?, hthread]
      exact advance_of_ended hending
    | running e cs =>
      refine absurd ⟨hn, by simp only [ending?, hthread], ?_⟩ h
      rintro c ⟨_, _, _, hwaiting⟩
      cases hthread.symm.trans hwaiting
    | waiting e i child cs =>
      by_cases hchild : m.ending? child = none
      · exact advance_of_waiting hthread hchild
      · refine absurd ⟨hn, by simp only [ending?, hthread], ?_⟩ h
        rintro c ⟨_, _, _, hwaiting⟩
        cases hthread.symm.trans hwaiting
        exact hchild

/-! ## The row of threads -/

/-- A thread that moves is awaited by those that have awaited it, and the one that it starts is
awaited by it. -/
theorem Sequential.advance (h : m.Sequential) (hdetached : (m.advance o n).detached = []) :
    (m.advance o n).Sequential := by
  by_cases hmoves : m.Moves n
  · rcases advance_cases o m n with hsame | ⟨hn, -, c, hc, hlength⟩
    · rwa [hsame]
    · -- Nobody is started but for the thread to wait for.
      have hnone : c = 0 := by
        rw [hc, List.append_eq_nil_iff, List.range'_eq_nil_iff] at hdetached
        exact hdetached.2
      subst hnone
      -- Who has awaited a thread that goes on has not moved, and so still does.
      have hold {k : Nat} (hpos : 0 < k) (hk : k < m.threads.length)
          (hgoesOn : m.ending? k = none) : ∃ p < k, (m.advance o n).Awaits p k := by
        rcases h k hpos hk hgoesOn with ⟨p, hp, hawaits⟩
        have hpn : p ≠ n := by
          rintro rfl
          exact hmoves.freed k hawaits hgoesOn
        rcases hawaits with ⟨e, i, cs, hthread⟩
        refine ⟨p, hp, e, i, cs, ?_⟩
        rw [advance_threads_of_ne o hpn (Nat.lt_trans hp hk), hthread]
      intro k hpos hk hgoesOn
      by_cases hlt : k < m.threads.length
      · refine hold hpos hlt ?_
        by_cases hkn : k = n
        · exact hkn ▸ hmoves.goesOn
        · rwa [ending?, advance_threads_of_ne o hkn hlt] at hgoesOn
      · rcases hlength with hlength | ⟨hlength, e, i, cs, hwaiting⟩
        · omega
        · have hlast : k = m.threads.length := by omega
          exact ⟨n, hlast ▸ hn, e, i, cs, hlast ▸ hwaiting⟩
  · rwa [advance_of_not_moves o hmoves]

/-- The thread `k` waits for the thread `n`, which goes on. -/
def Precedes (m : Machine) (k n : Nat) : Prop := m.Awaits k n ∧ m.ending? n = none

theorem rightUnique_precedes (m : Machine) : Relator.RightUnique m.Precedes := by
  rintro k n n' ⟨⟨e, i, cs, hthread⟩, -⟩ ⟨⟨e', i', cs', hthread'⟩, -⟩
  cases hthread.symm.trans hthread'
  rfl

/-- Every thread that goes on is in the row that begins with the first one. -/
theorem Sequential.reaches (h : m.Sequential) (hn : n < m.threads.length)
    (hgoesOn : m.ending? n = none) : ReflTransGen m.Precedes 0 n := by
  induction n using Nat.strongRecOn with
  | ind n ih =>
    rcases Nat.eq_zero_or_pos n with rfl | hpos
    · exact .refl
    · rcases h n hpos hn hgoesOn with ⟨k, hk, hawaits⟩
      exact (ih k hk (Nat.lt_trans hk hn) hawaits.ending?_eq_none).tail ⟨hawaits, hgoesOn⟩

/-- A thread that moves is the last one in the row. -/
theorem Moves.eq_of_reaches (h : m.Moves k) (hn : ReflTransGen m.Precedes k n) : n = k := by
  rcases hn.cases_head with rfl | ⟨c, ⟨hawaits, hgoesOn⟩, -⟩
  · rfl
  · exact absurd hgoesOn (h.freed c hawaits)

theorem Sequential.eq_of_moves (h : m.Sequential) (hj : m.Moves j) (hk : m.Moves k) : j = k := by
  have hrow := ReflTransGen.total_of_right_unique m.rightUnique_precedes
    (h.reaches hj.lt hj.goesOn) (h.reaches hk.lt hk.goesOn)
  rcases hrow with hjk | hkj
  · exact (hj.eq_of_reaches hjk).symm
  · exact hk.eq_of_reaches hkj

/-- When the main program is at its end, so is every thread. -/
theorem Sequential.not_moves_of_mainEnded (h : m.Sequential) (hmain : m.mainEnded = true)
    (n : Nat) : ¬m.Moves n := by
  intro hn
  have hfirst : m.ending? 0 ≠ none := Option.isSome_iff_ne_none.1 hmain
  rcases (h.reaches hn.lt hn.goesOn).cases_head with rfl | ⟨c, ⟨hawaits, -⟩, -⟩
  · exact hfirst hn.goesOn
  · exact hfirst hawaits.ending?_eq_none

/-! ## The order of turns -/

theorem play_of_not_moves (o : Options) (h : ∀ n, ¬m.Moves n) (ns : List Nat) :
    m.play o (ns.map .turn) = m := by
  induction ns with
  | nil => rfl
  | cons n ns ih =>
    change (m.advance o n).play o (ns.map .turn) = m
    rw [advance_of_not_moves o (h n), ih]

/-- Nothing happens before the turn of the thread that moves. -/
theorem Sequential.exists_play_advance (h : m.Sequential) (hk : m.Moves k)
    (hended : (m.play o (ns.map .turn)).mainEnded = true) :
    ∃ ns' : List Nat, m.play o (ns.map .turn) = (m.advance o k).play o (ns'.map .turn) := by
  induction ns with
  | nil => exact absurd hk (h.not_moves_of_mainEnded hended k)
  | cons n ns ih =>
    by_cases hn : m.Moves n
    · exact ⟨ns, by rw [h.eq_of_moves hk hn]; rfl⟩
    · have hidle : m.play o ((n :: ns).map .turn) = m.play o (ns.map .turn) := by
        change (m.advance o n).play o (ns.map .turn) = _
        rw [advance_of_not_moves o hn]
      rw [hidle] at hended ⊢
      exact ih hended

/-- If no thread is detached, it does not matter in which order the threads have their turns until
the main program is at its end. -/
theorem Sequential.play_eq (h : m.Sequential)
    (hdetached : (m.play o (ns.map .turn)).detached = [])
    (hended : (m.play o (ns.map .turn)).mainEnded = true)
    (hended' : (m.play o (ns'.map .turn)).mainEnded = true) :
    m.play o (ns'.map .turn) = m.play o (ns.map .turn) := by
  -- By induction on one order of turns; the other one has the same turns that have an effect.
  induction ns generalizing m ns' with
  | nil => exact play_of_not_moves o (h.not_moves_of_mainEnded hended) ns'
  | cons n ns ih =>
    change ((m.advance o n).play o (ns.map .turn)).detached = [] at hdetached
    change ((m.advance o n).play o (ns.map .turn)).mainEnded = true at hended
    change _ = (m.advance o n).play o (ns.map .turn)
    have hfirst : (m.advance o n).detached = [] :=
      List.prefix_nil.1 (hdetached ▸ detached_play o (m.advance o n) (ns.map .turn))
    by_cases hn : m.Moves n
    · rcases h.exists_play_advance hn hended' with ⟨rest, hrest⟩
      rw [hrest] at hended' ⊢
      exact ih (h.advance hfirst) hdetached hended hended'
    · rw [advance_of_not_moves o hn] at hdetached hended ⊢
      exact ih h hdetached hended hended'

end Machine

end CellMachine
