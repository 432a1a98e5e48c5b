import CellMachine.Proofs.Instruction
import CellMachine.Proofs.Machine.Spawn
import CellMachine.Proofs.Machine.Stopping

/-!
# On a thread of its own, or in place

This module proves that a part of the program does the same on a thread that the program waits for
as it does when its binary form is run in place. Two machines are played side by side, in one of
which the executor that waits is below the part, and in the other on a thread that has no turns.
Every turn in the one is a turn in the other, but for the last turn of the part: on a thread of its
own it comes to its end there, and in place it leaves that to the executor below it. The hooks of
the instructions that wait are not compared.
-/

namespace CellMachine

open Stateful

/-- An executor that waits for a program, which runs on top of it or on a thread of its own. -/
structure Transfer where
  home : Nat
  -- The thread of the program, if it has one of its own.
  away : Nat
  -- The executor below the program.
  caller : Suspended
  -- The executor that waits for the other thread.
  joiner : Executor
  joining : Instruction
  -- What is below the executor.
  callers : List Suspended

theorem Machine.depth_of_ended {m : Machine} {n : Nat} {r : Except Panic Outcome × Nat}
    (h : m.ending? n = some r) : m.depth n = 0 := by
  unfold ending? at h
  unfold depth
  split at h
  · rename_i hthread
    rw [hthread]
    rfl
  · cases h

namespace Transfer

variable {x : Transfer} {m m' : Machine} {k j : Nat} {o : Options}

/-- The number that a thread has if the program has a thread of its own. -/
def renumber (x : Transfer) (k : Nat) : Nat := if k < x.away then k else k + 1

/-- The thread on which happens what happens on the thread `k` if the program runs in place. -/
def place (x : Transfer) (k : Nat) : Nat := if k = x.home then x.away else x.renumber k

/-- What is below an executor on the thread `k`, and what is below it on the other thread. -/
def Stacks (x : Transfer) (k : Nat) (cs cs' : List Suspended) : Prop :=
  k ≠ x.home ∧ cs' = cs ∨ k = x.home ∧ cs = cs' ++ x.caller :: x.callers

/-- The state of the thread `k`, and that of the other thread. The program may be done, and its
thread at its end, before the executor below it takes notice. -/
inductive Threads (x : Transfer) (stopped : Bool) (k : Nat) : Thread → Thread → Prop where
  | running {e : Executor} {cs cs' : List Suspended} : x.Stacks k cs cs' →
      Threads x stopped k (.running e cs) (.running e cs')
  | waiting {e : Executor} {i : Instruction} {child : Nat} {cs cs' : List Suspended} :
      x.Stacks k cs cs' →
      Threads x stopped k (.waiting e i child cs) (.waiting e i (x.renumber child) cs')
  | ended {result : Except Panic Outcome} {clock : Nat} : k ≠ x.home →
      Threads x stopped k (.ended result clock) (.ended result clock)
  | done {e : Executor} : k = x.home → e.isLive = false ∨ stopped = true →
      Threads x stopped k (.running e (x.caller :: x.callers))
        (.ended (.ok e.outcome) e.clock)

/-- The machine in which the program runs in place, and the one in which it has a thread. -/
structure Machines (x : Transfer) (m m' : Machine) : Prop where
  world : m'.world = m.world
  settled : m.world.arrivals = []
  before : x.home < x.away
  within : x.away ≤ m.threads.length
  length : m'.threads.length = m.threads.length + 1
  joiner : m'.threads[x.home]? = some (.waiting x.joiner x.joining x.away x.callers)
  threads : ∀ k t, m.threads[k]? = some t →
    ∃ t', m'.threads[x.place k]? = some t' ∧ x.Threads m.world.stopped k t t'

/-! ## Numbers of threads -/

theorem renumber_of_lt (h : k < x.away) : x.renumber k = k := if_pos h

theorem renumber_of_le (h : x.away ≤ k) : x.renumber k = k + 1 := if_neg (Nat.not_lt.2 h)

theorem place_home (x : Transfer) : x.place x.home = x.away := if_pos rfl

theorem place_of_ne (h : k ≠ x.home) : x.place k = x.renumber k := if_neg h

theorem place_ne_home (h : x.home < x.away) (k : Nat) : x.place k ≠ x.home := by
  unfold place renumber
  split
  · omega
  · split <;> omega

theorem renumber_ne_away (x : Transfer) (k : Nat) : x.renumber k ≠ x.away := by
  unfold renumber
  split <;> omega

theorem renumber_inj (h : x.renumber j = x.renumber k) : j = k := by
  unfold renumber at h
  split at h <;> split at h <;> omega

theorem place_inj (h : x.place j = x.place k) : j = k := by
  by_cases hj : j = x.home <;> by_cases hk : k = x.home
  · rw [hj, hk]
  · rw [hj, place_home, place_of_ne hk] at h
    exact absurd h.symm (renumber_ne_away x k)
  · rw [hk, place_home, place_of_ne hj] at h
    exact absurd h (renumber_ne_away x j)
  · rw [place_of_ne hj, place_of_ne hk] at h
    exact renumber_inj h

theorem place_lt (hbefore : x.home < x.away) {length : Nat} (hlength : x.away ≤ length) :
    x.place k < length + 1 ↔ k < length := by
  unfold place renumber
  split
  · omega
  · split <;> omega

/-- Whatever happens on another thread than that of the executor has its place. -/
theorem exists_place (hbefore : x.home < x.away) (hj : j ≠ x.home) : ∃ k, x.place k = j := by
  rcases Nat.lt_trichotomy j x.away with hlt | rfl | hlt
  · exact ⟨j, by rw [place_of_ne hj, renumber_of_lt hlt]⟩
  · exact ⟨x.home, place_home x⟩
  · have hne : j - 1 ≠ x.home := by omega
    refine ⟨j - 1, ?_⟩
    rw [place_of_ne hne, renumber_of_le (by omega)]
    omega

/-! ## Turns on both sides -/

theorem Threads.mono {stopped stopped' : Bool} {t t' : Thread} (h : x.Threads stopped k t t')
    (hstopped : stopped = true → stopped' = true) : x.Threads stopped' k t t' := by
  cases h with
  | running hcs => exact .running hcs
  | waiting hcs => exact .waiting hcs
  | ended hne => exact .ended hne
  | done hhome hidle => exact .done hhome (hidle.imp_right hstopped)

theorem Stacks.cons {cs cs' : List Suspended} (h : x.Stacks k cs cs') (c : Suspended) :
    x.Stacks k (c :: cs) (c :: cs') := by
  rcases h with ⟨hne, rfl⟩ | ⟨hhome, rfl⟩
  · exact .inl ⟨hne, rfl⟩
  · exact .inr ⟨hhome, rfl⟩

/-- Below an executor there is the same one on both sides, or the one that waits. -/
theorem Stacks.uncons {c : Suspended} {cs cs' : List Suspended} (h : x.Stacks k (c :: cs) cs') :
    (∃ rest, cs' = c :: rest ∧ x.Stacks k cs rest) ∨
      k = x.home ∧ cs' = [] ∧ c = x.caller ∧ cs = x.callers := by
  rcases h with ⟨hne, rfl⟩ | ⟨hhome, hcs⟩
  · exact .inl ⟨cs, rfl, .inl ⟨hne, rfl⟩⟩
  · cases cs' with
    | nil =>
      cases hcs
      exact .inr ⟨hhome, rfl, rfl, rfl⟩
    | cons c' rest =>
      cases hcs
      exact .inl ⟨rest, rfl, .inr ⟨hhome, rfl⟩⟩

/-- Threads that are started on both sides have the same places. -/
theorem Machines.grow (h : x.Machines m m') {t t' : Thread} {m₁ m₁' : Machine}
    (ht : x.Threads m₁.world.stopped k t t') (new : List Executor)
    (hthreads : m₁.threads = m.threads.set k t ++ new.map fun e => .running e [])
    (hthreads' : m₁'.threads = m'.threads.set (x.place k) t' ++ new.map fun e => .running e [])
    (hworld : m₁'.world = m₁.world) (hsettled : m₁.world.arrivals = [])
    (hstopped : m.world.stopped = true → m₁.world.stopped = true) : x.Machines m₁ m₁' where
  world := hworld
  settled := hsettled
  before := h.before
  within := by
    have hwithin := h.within
    simp only [hthreads, List.length_append, List.length_set]
    omega
  length := by
    simp only [hthreads, hthreads', List.length_append, List.length_set, h.length]
    omega
  joiner := by
    have hhome := (List.getElem?_eq_some_iff.1 h.joiner).1
    rw [hthreads', List.getElem?_append_left (by simpa using hhome),
      List.getElem?_set_ne (place_ne_home h.before k)]
    exact h.joiner
  threads := by
    intro j tj hj
    rw [hthreads] at hj
    rw [hthreads']
    have hplace := place_lt (k := j) h.before h.within
    rw [← h.length] at hplace
    by_cases hlt : j < m.threads.length
    · rw [List.getElem?_append_left (by simpa using hlt)] at hj
      rw [List.getElem?_append_left (by simpa using hplace.2 hlt)]
      by_cases hkj : k = j
      · cases hkj
        rw [List.getElem?_set_self hlt] at hj
        cases hj
        exact ⟨t', List.getElem?_set_self (hplace.2 hlt), ht⟩
      · rw [List.getElem?_set_ne hkj] at hj
        rw [List.getElem?_set_ne fun heq => hkj (place_inj heq)]
        rcases h.threads j tj hj with ⟨tj', hj', hthread⟩
        exact ⟨tj', hj', hthread.mono hstopped⟩
    · -- The thread is one that has been started, and comes after the thread of the program.
      have hwithin := h.within
      have hbefore := h.before
      have hne : j ≠ x.home := by omega
      have hnext : x.place j = j + 1 := by rw [place_of_ne hne, renumber_of_le (by omega)]
      rw [List.getElem?_append_right (by rw [List.length_set]; omega), List.length_set] at hj
      rw [hnext, List.getElem?_append_right (by rw [List.length_set, h.length]; omega),
        List.length_set, h.length, Nat.add_sub_add_right, hj]
      rcases List.mem_map.1 (List.mem_of_getElem? hj) with ⟨e, -, rfl⟩
      exact ⟨_, rfl, .running (.inl ⟨hne, rfl⟩)⟩

theorem Machines.put (h : x.Machines m m') {t t' : Thread} {w : World}
    (ht : x.Threads w.stopped k t t') (hstopped : m.world.stopped = true → w.stopped = true) :
    x.Machines (m.put k t w) (m'.put (x.place k) t' w) :=
  h.grow ht w.arrivals rfl rfl rfl rfl hstopped

theorem Machines.fork (h : x.Machines m m') {e child : Executor} {i : Instruction}
    {cs cs' : List Suspended} {w : World} (hk : k < m.threads.length) (hcs : x.Stacks k cs cs')
    (hstopped : m.world.stopped = true → w.stopped = true) :
    x.Machines (m.fork k e i child cs w) (m'.fork (x.place k) e i child cs' w) := by
  have hk' : x.place k < m'.threads.length := by
    rw [h.length]
    exact (place_lt h.before h.within).2 hk
  have hchild : m'.threads.length + w.arrivals.length =
      x.renumber (m.threads.length + w.arrivals.length) := by
    have hwithin := h.within
    rw [renumber_of_le (by omega), h.length]
    omega
  refine h.grow ?_ (w.arrivals ++ [child]) (Machine.fork_threads_eq hk e child i cs w)
    (Machine.fork_threads_eq hk' e child i cs' w) rfl rfl hstopped
  rw [hchild]
  exact .waiting hcs

/-- A thread that is waited for ends on both sides or on none. -/
theorem Machines.ending?_eq (h : x.Machines m m') (k : Nat) :
    m'.ending? (x.renumber k) = m.ending? k := by
  unfold Machine.ending?
  have hbefore := h.before
  by_cases hk : k = x.home
  · -- The executor waits on the one side, and on the other one the program is not over.
    rw [hk, renumber_of_lt h.before, h.joiner]
    cases hthread : m.threads[x.home]? with
    | none => rfl
    | some t =>
      rcases h.threads _ t hthread with ⟨t', -, ht⟩
      cases ht with
      | running _ => rfl
      | waiting _ => rfl
      | ended hne => exact absurd rfl hne
      | done _ _ => rfl
  · cases hthread : m.threads[k]? with
    | none =>
      have hlength := List.getElem?_eq_none_iff.1 hthread
      have hwithin := h.within
      have hnone : m'.threads[x.renumber k]? = none := by
        rw [List.getElem?_eq_none_iff, h.length, renumber_of_le (by omega)]
        omega
      rw [hnone]
    | some t =>
      rcases h.threads _ t hthread with ⟨t', hthread', ht⟩
      rw [place_of_ne hk] at hthread'
      rw [hthread']
      cases ht with
      | running _ => rfl
      | waiting _ => rfl
      | ended _ => rfl
      | done heq _ => exact absurd heq hk

def Panics (x : Transfer) (m m' : Machine) : Prop :=
  ∃ p clock, m.ending? x.home = some (.error p, clock) ∧ m'.ending? x.away = some (.error p, clock)

/-- A panic ends the thread on both sides. -/
theorem Machines.panicked (h : x.Machines m m') (hk : k < m.threads.length) (p : Panic)
    (clock : Nat) (w : World) (hstopped : m.world.stopped = true → w.stopped = true) :
    x.Machines (m.put k (.ended (.error p) clock) w)
        (m'.put (x.place k) (.ended (.error p) clock) w) ∨
      x.Panics (m.put k (.ended (.error p) clock) w)
        (m'.put (x.place k) (.ended (.error p) clock) w) := by
  by_cases hhome : k = x.home
  · have hk' : x.place k < m'.threads.length := by
      rw [h.length]
      exact (place_lt h.before h.within).2 hk
    subst hhome
    rw [place_home] at hk' ⊢
    exact .inr ⟨p, clock, Machine.ending?_put hk _ _ w, Machine.ending?_put hk' _ _ w⟩
  · exact .inl (h.put (.ended hhome) hstopped)

theorem Machines.resumed (h : x.Machines m m') {cs cs' : List Suspended} {a : Action Unit}
    {s : Focus} (hk : k < m.threads.length) (hcs : x.Stacks k cs cs')
    (hstopped : m.world.stopped = true → (m.resumed k cs a s).world.stopped = true) :
    x.Machines (m.resumed k cs a s) (m'.resumed (x.place k) cs' a s) ∨
      x.Panics (m.resumed k cs a s) (m'.resumed (x.place k) cs' a s) := by
  unfold Machine.resumed at hstopped ⊢
  cases hattempt : Guarded.attempt a s with
  | ok v s' =>
    rw [hattempt] at hstopped
    exact .inl (h.put (.running hcs) hstopped)
  | error p s' =>
    rw [hattempt] at hstopped
    exact h.panicked hk p s'.exec.clock s'.world hstopped

/-- The program is done, and the executor below it takes notice next. -/
def Returns (x : Transfer) (m : Machine) (k : Nat) : Prop :=
  k = x.home ∧ ∃ e, m.threads[k]? = some (.running e (x.caller :: x.callers)) ∧
    (e.isLive = false ∨ m.world.stopped = true)

/-- A turn in the one machine is a turn in the other one, as long as the executor that waits does
not go on. -/
theorem Machines.advance (h : x.Machines m m') {t : Thread} (hthread : m.threads[k]? = some t) :
    x.Machines (m.advance o k) (m'.advance o (x.place k)) ∨ x.Returns m k ∨
      x.Panics (m.advance o k) (m'.advance o (x.place k)) := by
  have hk := (List.getElem?_eq_some_iff.1 hthread).1
  have hstopped : m.world.stopped = true → (m.advance o k).world.stopped = true :=
    fun hset => (Machine.after_stopped_iff o m (.turn k)).2 (.inl hset)
  rcases h.threads k t hthread with ⟨t', hthread', ht⟩
  cases ht with
  | ended _ =>
    have hsame : m.advance o k = m := by simp only [Machine.advance, hthread]
    have hsame' : m'.advance o (x.place k) = m' := by simp only [Machine.advance, hthread']
    rw [hsame, hsame']
    exact .inl h
  | done hhome hidle => exact .inr (.inl ⟨hhome, _, hthread, hidle⟩)
  | @waiting e i child cs cs' hcs =>
    have hending := h.ending?_eq child
    cases hresult : m.ending? child with
    | none =>
      rw [hresult] at hending
      have hsame : m.advance o k = m := by simp only [Machine.advance, hthread, hresult]
      have hsame' : m'.advance o (x.place k) = m' := by
        simp only [Machine.advance, hthread', hending]
      rw [hsame, hsame']
      exact .inl h
    | some r =>
      rw [hresult] at hending
      simp only [Machine.advance, hthread, hthread', hresult, hending, h.world] at hstopped ⊢
      exact (h.resumed hk hcs hstopped).imp_right .inr
  | @running e cs cs' hcs =>
    cases hturn : Guarded.turn o ⟨m.world, e⟩ with
    | error p s =>
      simp only [Machine.advance, hthread, hthread', hturn, h.world] at hstopped ⊢
      exact (h.panicked hk p s.exec.clock s.world hstopped).imp_right .inr
    | ok turn s =>
      cases turn with
      | ready =>
        simp only [Machine.advance, hthread, hthread', hturn, h.world] at hstopped ⊢
        exact .inl (h.put (.running hcs) hstopped)
      | calling i callee r =>
        simp only [Machine.advance, hthread, hthread', hturn, h.world] at hstopped ⊢
        exact .inl (h.put (.running (hcs.cons _)) hstopped)
      | joining i child =>
        have hadvance : m.advance o k = m.fork k s.exec i child cs s.world := by
          simp only [Machine.advance, hthread, hturn]
          rfl
        have hadvance' : m'.advance o (x.place k) =
            m'.fork (x.place k) s.exec i child cs' s.world := by
          simp only [Machine.advance, hthread', hturn, h.world]
          rfl
        rw [hadvance, hadvance']
        rw [hadvance] at hstopped
        exact .inl (h.fork hk hcs hstopped)
      | done =>
        cases Guarded.eq_of_turn_done hturn
        cases cs with
        | nil =>
          rcases hcs with ⟨hne, rfl⟩ | ⟨-, hnil⟩
          · simp only [Machine.advance, hthread, hthread', hturn, h.world] at hstopped ⊢
            exact .inl (h.put (.ended hne) hstopped)
          · exact absurd hnil.symm (List.append_ne_nil_of_right_ne_nil _ (List.cons_ne_nil _ _))
        | cons c cs =>
          rcases hcs.uncons with ⟨rest, rfl, hrest⟩ | ⟨hhome, rfl, rfl, rfl⟩
          · simp only [Machine.advance, hthread, hthread', hturn, h.world] at hstopped ⊢
            exact (h.resumed hk hrest hstopped).imp_right .inr
          · exact .inr (.inl ⟨hhome, e, hthread, (Logging.leaves_of_turn hturn).1⟩)

/-- A thread that is at its end without a panic has had the program on it. -/
theorem Machines.exists_done (h : x.Machines m m') {outcome : Outcome} {clock : Nat}
    (hended : m'.ending? x.away = some (.ok outcome, clock)) :
    ∃ e, m.threads[x.home]? = some (.running e (x.caller :: x.callers)) ∧
      (e.isLive = false ∨ m.world.stopped = true) ∧ e.outcome = outcome ∧ e.clock = clock := by
  have hhome := Nat.lt_of_lt_of_le h.before h.within
  rcases h.threads _ _ (List.getElem?_eq_getElem hhome) with ⟨t', hthread', ht⟩
  rw [place_home] at hthread'
  rw [Machine.ending?, hthread'] at hended
  rw [List.getElem?_eq_getElem hhome]
  generalize m.threads[x.home] = t at ht
  cases ht with
  | running _ => cases hended
  | waiting _ => cases hended
  | ended hne => exact absurd rfl hne
  | @done e _ hidle =>
    cases hended
    exact ⟨e, rfl, hidle, rfl, rfl⟩

/-! ## Schedules on both sides -/

/-- What is no turn happens on both sides. -/
theorem Machines.alter (h : x.Machines m m') {ev : Event} (hev : ∀ k, ev ≠ .turn k) :
    x.Machines (m.after o ev) (m'.after o ev) := by
  have hthreads {w : World} (hstopped : m.world.stopped = true → w.stopped = true) (k : Nat)
      (t : Thread) (hthread : m.threads[k]? = some t) :
      ∃ t', m'.threads[x.place k]? = some t' ∧ x.Threads w.stopped k t t' := by
    rcases h.threads k t hthread with ⟨t', hthread', ht⟩
    exact ⟨t', hthread', ht.mono hstopped⟩
  cases ev with
  | turn k => exact absurd rfl (hev k)
  | stop =>
    refine ⟨?_, h.settled, h.before, h.within, h.length, h.joiner, hthreads fun _ => rfl⟩
    exact congrArg (fun w => { w with stopped := true }) h.world
  | host refusal =>
    refine ⟨?_, h.settled, h.before, h.within, h.length, h.joiner, hthreads id⟩
    exact congrArg (fun w => { w with host := { w.host with refusal } }) h.world

/-- The program, or what it has called, is on top of the executor that waits. -/
theorem Machines.lt_depth (h : x.Machines m m') : x.callers.length < m.depth x.home := by
  have hhome := Nat.lt_of_lt_of_le h.before h.within
  have hthread := List.getElem?_eq_getElem hhome
  rcases h.threads _ _ hthread with ⟨t', -, ht⟩
  unfold Machine.depth
  rw [hthread]
  have hstacks {cs cs' : List Suspended} (hcs : x.Stacks x.home cs cs') :
      x.callers.length < cs.length := by
    rcases hcs with ⟨hne, -⟩ | ⟨-, rfl⟩
    · exact absurd rfl hne
    · rw [List.length_append, List.length_cons]
      omega
  generalize m.threads[x.home] = t at ht
  cases ht with
  | running hcs => exact hstacks hcs
  | waiting hcs => exact hstacks hcs
  | ended hne => exact absurd rfl hne
  | done _ _ => exact Nat.lt_succ_self _

theorem depth_of_panics (h : x.Panics m m') : m.depth x.home = 0 := by
  rcases h with ⟨p, clock, hended, -⟩
  exact Machine.depth_of_ended hended

/-- When the executor takes notice, nothing is on top of it any more. -/
theorem Returns.depth_le (h : x.Returns m k) :
    (m.advance o k).depth x.home ≤ x.callers.length := by
  rcases h with ⟨rfl, e, hthread, hidle⟩
  have hturn := Guarded.turn_of_idle (o := o) (s := ⟨m.world, e⟩) hidle
  have hk := (List.getElem?_eq_some_iff.1 hthread).1
  simp only [Machine.advance, hthread, hturn]
  rcases Machine.resumed_cases x.home x.callers _ _ with ⟨v, s, -, hresumed⟩ | ⟨p, s, -, hresumed⟩
  · rw [hresumed, Machine.depth, Machine.put_threads_self hk]
    exact Nat.le_refl _
  · rw [hresumed, Machine.depth, Machine.put_threads_self hk]
    exact Nat.zero_le _

/-- When the program is done, its thread comes to its end. -/
theorem Machines.finish (h : x.Machines m m') {e : Executor}
    (hthread : m.threads[x.home]? = some (.running e (x.caller :: x.callers)))
    (hidle : e.isLive = false ∨ m.world.stopped = true) :
    x.Machines m (m'.advance o x.away) ∧
      (m'.advance o x.away).ending? x.away = some (.ok e.outcome, e.clock) := by
  rcases h.threads _ _ hthread with ⟨t', hthread', ht⟩
  rw [place_home] at hthread'
  cases ht with
  | done _ _ =>
    have hsame : m'.advance o x.away = m' := by simp only [Machine.advance, hthread']
    rw [hsame]
    exact ⟨h, by simp only [Machine.ending?, hthread']⟩
  | @running _ _ cs' hcs =>
    have hnil : cs' = [] := by
      rcases hcs with ⟨hne, -⟩ | ⟨-, hcs⟩
      · exact absurd rfl hne
      · exact List.self_eq_append_left.1 hcs
    subst hnil
    have hturn := Guarded.turn_of_idle (o := o) (s := ⟨m.world, e⟩) hidle
    have hadvance : m'.advance o x.away =
        m'.put (x.place x.home) (.ended (.ok e.outcome) e.clock) m.world := by
      simp only [Machine.advance, hthread', h.world, hturn, place_home]
    have hworld : (m'.advance o x.away).world = m.world := by
      rw [hadvance, Machine.put_world, ← h.settled]
    have hthreads : (m'.advance o x.away).threads = m'.threads.set (x.place x.home)
        (.ended (.ok e.outcome) e.clock) ++ [].map fun e => .running e [] := by
      rw [hadvance, Machine.put_threads, h.settled]
    have hself : m.threads.set x.home (.running e (x.caller :: x.callers)) = m.threads := by
      rcases List.getElem?_eq_some_iff.1 hthread with ⟨hlt, hget⟩
      rw [← hget, List.set_getElem_self]
    have hunchanged : m.threads = m.threads.set x.home (.running e (x.caller :: x.callers)) ++
        [].map fun e => .running e [] := by
      rw [hself, List.map_nil, List.append_nil]
    refine ⟨h.grow (.done rfl hidle) [] hunchanged hthreads hworld h.settled id, ?_⟩
    rw [hadvance, place_home]
    exact Machine.ending?_put (List.getElem?_eq_some_iff.1 hthread').1 _ _ _

end Transfer

/-- Along a schedule there are always more than `d` executors below the one on top of the thread
`n`. -/
def Machine.Covered (o : Options) (m : Machine) (n d : Nat) : List Event → Prop
  | [] => d < m.depth n
  | ev :: es => d < m.depth n ∧ Covered o (m.after o ev) n d es

theorem Machine.Covered.lt_depth {o : Options} {m : Machine} {n d : Nat} {es : List Event}
    (h : m.Covered o n d es) : d < m.depth n := by
  cases es with
  | nil => exact h
  | cons ev es => exact h.1

namespace Transfer

variable {x : Transfer} {m m' : Machine} {o : Options} {es : List Event}

/-- What happens if the program runs in place happens if it has a thread of its own. -/
theorem Machines.exists_play_away (h : x.Machines m m')
    (hes : m.Covered o x.home x.callers.length es) :
    ∃ es', .turn x.home ∉ es' ∧ x.Machines (m.play o es) (m'.play o es') := by
  -- The executor below the program keeps out of it for as long as the schedule is covered, so that
  -- of the three outcomes of a turn only the first one is left.
  induction es generalizing m m' with
  | nil => exact ⟨[], List.not_mem_nil, h⟩
  | cons ev es ih =>
    cases ev with
    | stop | host refusal =>
      rcases ih (h.alter (by simp)) hes.2 with ⟨es', hnone, hplay⟩
      refine ⟨_ :: es', ?_, hplay⟩
      simpa using hnone
    | turn k =>
      have hdepth : x.callers.length < (m.advance o k).depth x.home := hes.2.lt_depth
      cases hthread : m.threads[k]? with
      | none =>
        have hsame : m.advance o k = m := by simp only [Machine.advance, hthread]
        rcases ih h (hsame ▸ hes.2) with ⟨es', hnone, hplay⟩
        refine ⟨es', hnone, ?_⟩
        change x.Machines ((m.advance o k).play o es) _
        rwa [hsame]
      | some t =>
        rcases h.advance (o := o) hthread with hadvance | hreturns | hpanics
        · rcases ih hadvance hes.2 with ⟨es', hnone, hplay⟩
          refine ⟨.turn (x.place k) :: es', ?_, hplay⟩
          have hne := place_ne_home h.before k
          simp only [List.mem_cons, Event.turn.injEq, not_or]
          exact ⟨hne.symm, hnone⟩
        · exact absurd hreturns.depth_le (Nat.not_le.2 hdepth)
        · rw [depth_of_panics hpanics] at hdepth
          exact absurd hdepth (Nat.not_lt_zero _)

/-- What happens if the program has a thread of its own happens if it runs in place, unless the
thread ends in a panic. -/
theorem Machines.exists_play_home (h : x.Machines m m') (hes : .turn x.home ∉ es)
    (hended : ∀ p clock, (m'.play o es).ending? x.away ≠ some (.error p, clock)) :
    ∃ es', m.Covered o x.home x.callers.length es' ∧ x.Machines (m.play o es') (m'.play o es) := by
  induction es generalizing m m' with
  | nil => exact ⟨[], h.lt_depth, h⟩
  | cons ev es ih =>
    have hev : .turn x.home ≠ ev := fun heq => hes (heq ▸ List.mem_cons_self)
    have hes' : .turn x.home ∉ es := fun hmem => hes (List.mem_cons_of_mem _ hmem)
    cases ev with
    | stop | host refusal =>
      rcases ih (h.alter (by simp)) hes' hended with ⟨es', hcovered, hplay⟩
      exact ⟨_ :: es', ⟨h.lt_depth, hcovered⟩, hplay⟩
    | turn j =>
      -- The executor that waits has no turn, and any other turn is one on some thread `k` in place.
      have hj : j ≠ x.home := fun heq => hev (heq ▸ rfl)
      rcases exists_place h.before hj with ⟨k, rfl⟩
      cases hthread : m.threads[k]? with
      | none =>
        have hnone : m'.threads[x.place k]? = none := by
          rw [List.getElem?_eq_none_iff, h.length, ← Nat.not_lt, place_lt h.before h.within,
            Nat.not_lt]
          exact List.getElem?_eq_none_iff.1 hthread
        have hsame : m'.advance o (x.place k) = m' := by simp only [Machine.advance, hnone]
        change ∃ es', _ ∧ x.Machines _ ((m'.advance o (x.place k)).play o es)
        rw [hsame]
        refine ih h hes' ?_
        rw [← hsame]
        exact hended
      | some t =>
        rcases h.advance (o := o) hthread with hadvance | hreturns | hpanics
        · rcases ih hadvance hes' hended with ⟨es', hcovered, hplay⟩
          exact ⟨.turn k :: es', ⟨h.lt_depth, hcovered⟩, hplay⟩
        · -- The machine in which the program runs in place does not move.
          rcases hreturns with ⟨rfl, e, hthread, hidle⟩
          rw [place_home] at *
          exact ih (h.finish hthread hidle).1 hes' hended
        · rcases hpanics with ⟨p, clock, -, hended'⟩
          exact absurd (Machine.ending?_play hended' es) (hended p clock)

end Transfer

namespace Machine

variable {o : Options} {m : Machine} {n : Nat} {callers : List Suspended} {i j : Instruction}
  {s t : Focus} {first past : Nat}

/-! ## Instructions that wait for a program -/

/-- Whoever waits for a thread waits for one that is there. -/
def Linked (m : Machine) : Prop :=
  ∀ e i child cs, .waiting e i child cs ∈ m.threads → child < m.threads.length

theorem Linked.grow {m' : Machine} {t : Thread} {new : List Executor} (h : m.Linked)
    (hthreads : m'.threads = m.threads.set n t ++ new.map fun e => .running e [])
    (ht : ∀ e i child cs, t = .waiting e i child cs → child < m'.threads.length) : m'.Linked := by
  intro e i child cs hmem
  rw [hthreads] at hmem
  rcases List.mem_append.1 hmem with hmem | hmem
  · rcases List.mem_or_eq_of_mem_set hmem with hmem | rfl
    · have hchild := h e i child cs hmem
      rw [hthreads, List.length_append, List.length_set]
      omega
    · exact ht e i child cs rfl
  · rcases List.mem_map.1 hmem with ⟨_, -, hrunning⟩
    cases hrunning

theorem Linked.put (h : m.Linked) {t : Thread} (ht : ∀ e i child cs, t ≠ .waiting e i child cs)
    (n : Nat) (w : World) : (m.put n t w).Linked :=
  h.grow (put_threads t w) fun e i child cs hwaiting => absurd hwaiting (ht e i child cs)

theorem Linked.resumed (h : m.Linked) (cs : List Suspended) (a : Action Unit) (s : Focus) :
    (m.resumed n cs a s).Linked := by
  rcases resumed_cases n cs a s with ⟨_, _, -, hresumed⟩ | ⟨_, _, -, hresumed⟩
  · rw [hresumed]
    exact h.put (fun _ _ _ _ hwaiting => by cases hwaiting) n _
  · rw [hresumed]
    exact h.put (fun _ _ _ _ hwaiting => by cases hwaiting) n _

theorem Linked.advance (h : m.Linked) (n : Nat) : (m.advance o n).Linked := by
  have hstep := step_advance o m n
  generalize m.advance o n = m' at hstep
  cases hstep with
  | idle _ => exact h
  | ready _ _ | calling _ _ | finished _ _ | panicked _ _ =>
    exact h.put (fun _ _ _ _ hwaiting => by cases hwaiting) n _
  | returned _ _ | joined _ _ => exact h.resumed _ _ _
  | joining hthread _ =>
    have hn := (List.getElem?_eq_some_iff.1 hthread).1
    refine h.grow (fork_threads_eq hn _ _ _ _ _) fun e i child cs hwaiting => ?_
    cases hwaiting
    simp only [fork_threads_eq hn, List.length_append, List.length_set, List.length_map,
      List.length_cons, List.length_nil]
    omega

/-- In every machine that an execution comes to, whoever waits for a thread waits for one that is
there. -/
theorem linked_play (o : Options) (world : World) (p : Program) (active : UInt32)
    (es : List Event) : ((Machine.start o world p active).play o es).Linked := by
  have hstart : (Machine.start o world p active).Linked := by
    intro e i child cs hmem
    cases List.mem_singleton.1 hmem
  generalize Machine.start o world p active = m at hstart
  induction es generalizing m with
  | nil => exact hstart
  | cons ev es ih =>
    refine ih _ ?_
    cases ev with
    | turn n => exact hstart.advance n
    | stop | host refusal => exact hstart

/-- The machine in which an executor that is called runs on top of the one that has called it. -/
def call (m : Machine) (n : Nat) (e : Executor) (i : Instruction) (callee : Executor)
    (callers : List Suspended) (w : World) : Machine :=
  m.put n (.running callee (⟨e, i, .append none⟩ :: callers)) w

/-- The instruction `i`, which is run in the state `s` by an executor on top of `callers` on the
thread `n`, waits for a program and has taken over its output in the state `t`. What follows is the
hook at the end of the instruction. -/
inductive Completes (o : Options) (m : Machine) (n : Nat) (callers : List Suspended)
    (i : Instruction) (s : Focus) : Focus → Prop where
  -- The program has come to its end on a thread of its own, after the events `es`. Before that, the
  -- executor that waits cannot have a turn.
  | joined {child : Executor} {s' : Focus} {es : List Event} {outcome : Outcome} {clock : Nat} :
    i.run o s = .ok (.join child) s' → .turn n ∉ es →
      ((m.fork n s'.exec i child callers s'.world).play o es).ending?
        (m.threads.length + s'.world.arrivals.length) = some (.ok outcome, clock) →
      Completes o m n callers i s
        ⟨((m.fork n s'.exec i child callers s'.world).play o es).world,
          { s'.exec with output := s'.exec.output ++ outcome.output
                         clock := max s'.exec.clock clock }⟩
  -- The program is done on top of the executor, after the events `es`.
  | called {callee e : Executor} {s' : Focus} {es : List Event} :
    i.run o s = .ok (.call callee (.append none)) s' →
      (m.call n s'.exec i callee callers s'.world).Covered o n callers.length es →
      ((m.call n s'.exec i callee callers s'.world).play o es).threads[n]? =
        some (.running e (⟨s'.exec, i, .append none⟩ :: callers)) →
      (e.isLive = false ∨
        ((m.call n s'.exec i callee callers s'.world).play o es).world.stopped = true) →
      Completes o m n callers i s
        ⟨((m.call n s'.exec i callee callers s'.world).play o es).world,
          { s'.exec with output := s'.exec.output ++ e.output, clock := e.clock }⟩

/-- An instruction that takes over the output of a program has the hook at its end called next. -/
theorem Completes.exists_play {e : Executor} (h : m.Completes o n callers i s t)
    (hthread : m.threads[n]? = some (.running e callers))
    (hdispatched : Focus.Dispatches o ⟨m.world, e⟩ i s) :
    ∃ es, (m.play o es).world = t.world ∧
      (m.play o es).advance o n = (m.play o es).resumed n callers (Action.finish i .next) t := by
  have hn := (List.getElem?_eq_some_iff.1 hthread).1
  cases h with
  | @joined child s' es outcome clock hrun hes hended =>
    have hadvance : m.advance o n = m.fork n s'.exec i child callers s'.world := by
      simp only [advance, hthread, Guarded.turn_of_join hdispatched hrun]
      rfl
    have hwaiting := fork_threads_self hn s'.exec child i callers s'.world
    have hwaits : ((m.fork n s'.exec i child callers s'.world).play o es).threads[n]? =
        some (.waiting s'.exec i (m.threads.length + s'.world.arrivals.length) callers) := by
      rw [play_threads_of_notMem hes (List.getElem?_eq_some_iff.1 hwaiting).1, hwaiting]
    have hplay : m.play o (.turn n :: es) =
        (m.fork n s'.exec i child callers s'.world).play o es := by
      rw [← hadvance]
      rfl
    refine ⟨.turn n :: es, ?_⟩
    rw [hplay]
    refine ⟨rfl, ?_⟩
    simp only [advance, hwaits, hended]
    rfl
  | @called callee e' s' es hrun _ hthread' hidle =>
    have hadvance : m.advance o n = m.call n s'.exec i callee callers s'.world := by
      simp only [advance, hthread, Guarded.turn_of_call hdispatched hrun]
      rfl
    have hplay : m.play o (.turn n :: es) =
        (m.call n s'.exec i callee callers s'.world).play o es := by
      rw [← hadvance]
      rfl
    refine ⟨.turn n :: es, ?_⟩
    rw [hplay]
    refine ⟨rfl, ?_⟩
    simp only [advance, hthread', Guarded.turn_of_idle (o := o) (s := ⟨_, e'⟩) hidle]
    rfl

/-- The instructions from `first` up to `past` run on a thread of their own, or in place. -/
def transfer (m : Machine) (n : Nat) (callers : List Suspended) (i j : Instruction) (s : Focus)
    (first past : Nat) : Transfer where
  home := n
  away := m.threads.length + s.world.arrivals.length
  caller := ⟨s.exec, j, .append none⟩
  joiner := s.exec.without first past
  joining := i
  callers := callers

theorem fork_threads_last (hn : n < m.threads.length) (e child : Executor) (i : Instruction)
    (callers : List Suspended) (w : World) : (m.fork n e i child callers w).threads[
      m.threads.length + w.arrivals.length]? = some (.running child []) := by
  have hlength : (m.threads.set n (.waiting e i (m.threads.length + w.arrivals.length) callers) ++
      w.arrivals.map fun e => Thread.running e []).length =
        m.threads.length + w.arrivals.length := by
    rw [List.length_append, List.length_set, List.length_map]
  rw [fork_threads_eq hn, List.map_append, ← List.append_assoc,
    List.getElem?_append_right (Nat.le_of_eq hlength), hlength, Nat.sub_self]
  rfl

/-- Whether an executor calls a program or waits for one, the other threads are the same. -/
theorem fork_threads_of_ne (hn : n < m.threads.length) {e e' callee child : Executor}
    {callers' : List Suspended} {w : World} {k : Nat} {thread : Thread} (hkn : k ≠ n)
    (h : (m.call n e j callee callers w).threads[k]? = some thread) :
    (m.fork n e' i child callers' w).threads[k]? = some thread := by
  have hk := (List.getElem?_eq_some_iff.1 h).1
  rw [call, put_threads] at h hk
  rw [fork_threads_eq hn, List.map_append, ← List.append_assoc,
    List.getElem?_append_left (by simpa using hk), ← h]
  by_cases hold : k < m.threads.length
  · rw [List.getElem?_append_left (by simpa using hold), List.getElem?_set_ne hkn.symm,
      List.getElem?_append_left (by simpa using hold), List.getElem?_set_ne hkn.symm]
  · have hlength := Nat.not_lt.1 hold
    rw [List.getElem?_append_right (by simpa using hlength),
      List.getElem?_append_right (by simpa using hlength), List.length_set, List.length_set]

theorem machines_fork_call (hn : n < m.threads.length) (hm : m.Linked) (child : Executor) :
    (m.transfer n callers i j s first past).Machines (m.call n s.exec j child callers s.world)
      (m.fork n (s.exec.without first past) i child callers s.world) where
  world := rfl
  settled := rfl
  before := Nat.lt_of_lt_of_le hn (Nat.le_add_right _ _)
  within := by
    rw [call, put_threads, List.length_append, List.length_set, List.length_map]
    exact Nat.le_refl _
  length := by
    rw [call, put_threads, fork_threads_eq hn]
    simp only [List.length_append, List.length_set, List.length_map, List.length_cons,
      List.length_nil]
    omega
  joiner := fork_threads_self hn _ _ _ _ _
  threads := by
    intro k t hk
    have hcall : (m.call n s.exec j child callers s.world).Linked :=
      hm.put (fun _ _ _ _ hwaiting => by cases hwaiting) n _
    have hlength : (m.call n s.exec j child callers s.world).threads.length =
        m.threads.length + s.world.arrivals.length := by
      rw [call, put_threads, List.length_append, List.length_set, List.length_map]
    by_cases hkn : k = n
    · -- The program runs on a thread behind all others, or on top of the executor.
      have hplace : (m.transfer n callers i j s first past).place k =
          m.threads.length + s.world.arrivals.length := if_pos hkn
      rw [hkn, call, put_threads_self hn] at hk
      cases hk
      rw [hplace]
      exact ⟨_, fork_threads_last hn _ _ _ _ _, .running (.inr ⟨hkn, rfl⟩)⟩
    · have hlt : k < m.threads.length + s.world.arrivals.length :=
        hlength ▸ (List.getElem?_eq_some_iff.1 hk).1
      have hplace : (m.transfer n callers i j s first past).place k = k :=
        (if_neg hkn).trans (if_pos hlt)
      rw [hplace, fork_threads_of_ne hn hkn hk]
      refine ⟨t, rfl, ?_⟩
      cases t with
      | running e cs => exact .running (.inl ⟨hkn, rfl⟩)
      | ended result clock => exact .ended hkn
      | waiting e i' waited cs =>
        have hsame : (m.transfer n callers i j s first past).renumber waited = waited :=
          if_pos (Nat.lt_of_lt_of_eq (hcall e i' waited cs (List.mem_of_getElem? hk)) hlength)
        have hthread : (m.transfer n callers i j s first past).Threads s.world.stopped k
            (.waiting e i' waited cs) (.waiting e i' _ cs) := .waiting (.inl ⟨hkn, rfl⟩)
        rwa [hsame] at hthread

/-- The instruction 89 has the part of the program run on a thread of its own. -/
theorem run_of_grants (hi : i.opcode = 89) (h : s.Grants i false first past) :
    i.run o s = .ok (.join (s.exec.part first past)) ⟨s.world, s.exec.without first past⟩ := by
  have hcode : Opcode.ofCode? i.opcode = some (.spawn false true) := by
    rw [hi]
    decide +kernel
  have hcheck : Action.checkRange first past s.exec.program.size s.exec.ip = .ok () :=
    Action.checkRange_eq_ok_iff.2 ⟨h.ordered, h.within, h.outside⟩
  rw [Instruction.run_of_code hcode, Opcode.run_spawn_of_asks o true h.asked, Action.spawn_eq,
    hcheck, h.given]
  rfl

/-- The instruction 111 has a program run on top of the executor that its binary form is of. -/
theorem run_of_binary {p : Program} {slot : Slot} (hj : j.opcode = 111)
    (hslot : s.slot? = some slot) (hcell : j.value slot.memory 0 = .ok p.encode)
    (hp : p = .ofList p.instructions) (hfits : ∀ k ∈ p.instructions, k.Fits) :
    j.run o s = .ok (.call (Action.offspring s.exec p s.exec.active) (.append none)) s := by
  have hcode : Opcode.ofCode? j.opcode = some .runBinary := by
    rw [hj]
    decide +kernel
  have hread : Action.reading (fun ns => j.value ns 0) s = .ok p.encode s :=
    Action.reading_eq_ok_iff.2 ⟨rfl, slot, hslot, hcell⟩
  have hdecode : Program.decode p.encode = .ok p :=
    (Program.decode_encodeAll hfits).trans (congrArg Except.ok hp.symm)
  rw [Instruction.run_of_code hcode]
  refine (bind_of_ok hread _).trans ?_
  rw [get_bind, Action.run, hdecode]
  rfl

section

variable (hn : n < m.threads.length) (hm : m.Linked)
include hn hm

/-- What the instruction 89 comes to with a thread of its own for the program, the instruction 111
comes to with the program in place. -/
theorem completes_of_joined (hrun : i.run o s =
      .ok (.join (s.exec.part first past)) ⟨s.world, s.exec.without first past⟩)
    (hrun' : j.run o s = .ok (.call (s.exec.part first past) (.append none)) s)
    (h : m.Completes o n callers i s t) : ∃ world output clock,
      t = ⟨world, { s.exec.without first past with
        output := s.exec.output ++ output, clock := max s.exec.clock clock }⟩ ∧
      m.Completes o n callers j s
        ⟨world, { s.exec with output := s.exec.output ++ output, clock }⟩ := by
  cases h with
  | called hcall _ _ _ => cases hrun.symm.trans hcall
  | @joined child s' es outcome clock hjoin hes hended =>
    cases hrun.symm.trans hjoin
    have hmachines : (m.transfer n callers i j s first past).Machines _ _ :=
      machines_fork_call hn hm (s.exec.part first past)
    rcases hmachines.exists_play_home (o := o) hes
      (fun _ _ hpanic => by cases hended.symm.trans hpanic) with ⟨es', hcovered, hplay⟩
    rcases hplay.exists_done hended with ⟨e, hthread, hidle, rfl, rfl⟩
    refine ⟨_, e.output, e.clock, rfl, ?_⟩
    rw [hplay.world]
    exact .called hrun' hcovered hthread hidle

/-- And the other way round: the thread of the program has one more turn, in which it comes to its
end. -/
theorem completes_of_called (hrun : i.run o s =
      .ok (.join (s.exec.part first past)) ⟨s.world, s.exec.without first past⟩)
    (hrun' : j.run o s = .ok (.call (s.exec.part first past) (.append none)) s)
    (h : m.Completes o n callers j s t) : ∃ world output clock,
      t = ⟨world, { s.exec with output := s.exec.output ++ output, clock }⟩ ∧
      m.Completes o n callers i s ⟨world, { s.exec.without first past with
        output := s.exec.output ++ output, clock := max s.exec.clock clock }⟩ := by
  cases h with
  | joined hjoin _ _ => cases hrun'.symm.trans hjoin
  | @called callee e s' es hcall hcovered hthread hidle =>
    cases hrun'.symm.trans hcall
    have hmachines : (m.transfer n callers i j s first past).Machines _ _ :=
      machines_fork_call hn hm (s.exec.part first past)
    rcases hmachines.exists_play_away hcovered with ⟨es', hes', hplay⟩
    rcases hplay.finish (o := o) hthread hidle with ⟨hfinish, hended⟩
    refine ⟨_, e.output, e.clock, rfl, ?_⟩
    have hnone : Event.turn n ∉ es' ++ [.turn (m.threads.length + s.world.arrivals.length)] := by
      rw [List.mem_append, List.mem_singleton, Event.turn.injEq, not_or]
      exact ⟨hes', by omega⟩
    have hlast : (m.fork n (s.exec.without first past) i (s.exec.part first past) callers
        s.world).play o (es' ++ [.turn (m.threads.length + s.world.arrivals.length)]) =
          ((m.fork n (s.exec.without first past) i (s.exec.part first past) callers
            s.world).play o es').advance o (m.transfer n callers i j s first past).away :=
      play_append es' _
    have hcompletes := Completes.joined hrun hnone (hlast ▸ hended)
    rw [← hfinish.world, ← hlast]
    exact hcompletes

/-- A part of the program that runs on a thread of its own and is waited for does what its binary
form does in place, whatever the order in which threads move. The worlds that the two instructions
leave are the same, and the same is appended to the output; one of them takes the part out of the
program. -/
theorem completes_of_cut (hi : i.opcode = 89) (hgrants : s.Grants i false first past)
    (hj : j.opcode = 111)
    (hcell : ∃ slot, s.slot? = some slot ∧
      j.value slot.memory 0 = .ok (s.exec.program.cut first past).2.encode)
    (hfits : ∀ k ∈ (s.exec.program.cut first past).2.instructions, k.Fits) :
    (∀ t, m.Completes o n callers i s t → ∃ world output clock,
      t = ⟨world, { s.exec.without first past with
        output := s.exec.output ++ output, clock := max s.exec.clock clock }⟩ ∧
      m.Completes o n callers j s
        ⟨world, { s.exec with output := s.exec.output ++ output, clock }⟩) ∧
    (∀ t, m.Completes o n callers j s t → ∃ world output clock,
      t = ⟨world, { s.exec with output := s.exec.output ++ output, clock }⟩ ∧
      m.Completes o n callers i s ⟨world, { s.exec.without first past with
        output := s.exec.output ++ output, clock := max s.exec.clock clock }⟩) := by
  rcases hcell with ⟨slot, hslot, hvalue⟩
  have hrun := run_of_grants (o := o) hi hgrants
  have hrun' : j.run o s = .ok (.call (s.exec.part first past) (.append none)) s :=
    run_of_binary hj hslot hvalue rfl hfits
  refine ⟨fun t h => ?_, fun t h => ?_⟩
  · exact completes_of_joined hn hm hrun hrun' h
  · exact completes_of_called hn hm hrun hrun' h

end

def writing : Instruction := ⟨1, 30, [[0, 0, 0, 0], [0, 0, 0, 9]]⟩

def spawning : Instruction := ⟨0, 89, [[0, 0, 0, 0], [0, 0, 0, 1]]⟩

def nesting : Instruction := ⟨0, 111, [[0, 0, 0, 2]]⟩

/-- An executor in front of a part of its program that writes a cell. The cells hold the positions
of that part, and its binary form. -/
def partwise : Focus where
  world := { table := Table.initial.insert 0 { memory := OrderedMap.ofList [
    (0, [0, 0, 0, 1]), (1, [0, 0, 0, 2]), (2, writing.encode)] } }
  exec := { program := .ofList [spawning, writing, ⟨2, 58, []⟩], active := 0 }

/-- Both instructions leave the same world and append what the part has written. -/
theorem completes_of_cut_partwise :
    let m : Machine := { world := partwise.world, threads := [.running partwise.exec []] }
    ∃ world clock,
      m.Completes {} 0 [] spawning partwise
        ⟨world, { partwise.exec.without 1 2 with output := [0, 0, 0, 1], clock := max 0 clock }⟩ ∧
      m.Completes {} 0 [] nesting partwise
        ⟨world, { partwise.exec with output := [0, 0, 0, 1], clock }⟩ := by
  intro m
  have hlinked : m.Linked := linked_play {} partwise.world partwise.exec.program 0 []
  have hgrants : partwise.Grants spawning false 1 2 :=
    ⟨⟨⟨_, 1, 2, rfl, rfl, rfl, rfl, rfl⟩, by decide, by decide, by decide⟩, rfl⟩
  have hfits : ∀ k ∈ (partwise.exec.program.cut 1 2).2.instructions, k.Fits := by
    unfold Instruction.Fits
    decide
  have hended : ((m.fork 0 (partwise.exec.without 1 2) spawning (partwise.exec.part 1 2) []
      partwise.world).play {} [.turn 1, .turn 1]).ending? 1 =
        some (.ok ⟨[0, 0, 0, 1], false, none⟩, 0) := by
    decide +kernel
  have hjoined := Completes.joined (run_of_grants rfl hgrants) (by decide) hended
  have hcell : ∃ slot, partwise.slot? = some slot ∧
      nesting.value slot.memory 0 = .ok (partwise.exec.program.cut 1 2).2.encode := ⟨_, rfl, rfl⟩
  rcases completes_of_cut Nat.zero_lt_one hlinked rfl hgrants rfl hcell hfits with ⟨hsame, -⟩
  rcases hsame _ hjoined with ⟨world, output, clock, ht, hcalled⟩
  have houtput : output = [0, 0, 0, 1] := (congrArg (fun t : Focus => t.exec.output) ht).symm
  subst houtput
  exact ⟨world, clock, ht ▸ hjoined, hcalled⟩

end Machine

end CellMachine
