import CellMachine.Proofs.Machine.Turn

/-!
# Schedules

This module proves what holds in every state of a machine, in whatever order its threads move, and
whenever it is told to stop or the host changes its mind about threads. `Machine.Step` says what the
turn of a thread can come to, and `Machine.Invariant` what has to be checked of turns for a property
to hold on all along.
-/

namespace CellMachine

open Stateful

/-- The executors of a thread, the one that is running or waits for another thread first. -/
def Thread.executors : Thread → List Executor
  | .running e callers | .waiting e _ _ callers => e :: callers.map (·.exec)
  | .ended .. => []

/-- How many executors wait on a thread for the one on top of them. -/
def Thread.depth : Thread → Nat
  | .running _ callers | .waiting _ _ _ callers => callers.length
  | .ended .. => 0

namespace Machine

variable {o : Options} {m m' : Machine} {n k : Nat}

/-- The next turn of the thread `n` takes up the instruction `i`. -/
def TakesUp (o : Options) (m : Machine) (n : Nat) (i : Instruction) : Prop :=
  ∃ e callers, m.threads[n]? = some (.running e callers) ∧ Focus.TakesUp o ⟨m.world, e⟩ i

/-- The next turn of the thread `n` takes up an instruction. -/
def starts (o : Options) (m : Machine) (n : Nat) : Bool :=
  match m.threads[n]? with
  | some (.running e _) => Focus.starts o ⟨m.world, e⟩
  | _ => false

theorem starts_of_running {e : Executor} {callers : List Suspended}
    (h : m.threads[n]? = some (.running e callers)) :
    m.starts o n = Focus.starts o ⟨m.world, e⟩ := by
  rw [starts, h]

/-- How many executors wait on the thread `n` for the one on top of them. -/
def depth (m : Machine) (n : Nat) : Nat := (m.threads[n]?).elim 0 Thread.depth

def turns (o : Options) (m : Machine) (k : Nat) : Machine := m.play o (List.replicate k (.turn 0))

theorem turns_succ (k : Nat) : m.turns o (k + 1) = (m.turns o k).advance o 0 := by
  rw [turns, List.replicate_succ', play_append]
  rfl

/-! ## Runs of one thread -/

theorem runUntil_of_done {done : Machine → Bool} (h : done m = true) (fuel : Nat) :
    m.runUntil done o fuel = m := by
  cases fuel with
  | zero => rfl
  | succ fuel => rw [runUntil, h, if_pos rfl]

/-- A thread that is alone and runs has the next turn. -/
theorem runUntil_succ_of_running {e : Executor} {callers : List Suspended}
    (h : m.threads = [.running e callers]) (fuel : Nat) :
    m.runUntil mainEnded o (fuel + 1) = (m.advance o 0).runUntil mainEnded o fuel := by
  have hended : m.mainEnded = false := by simp [mainEnded, ending?, h]
  have hnext : m.next? = some 0 := by simp [next?, due?, h]
  simp only [runUntil, hended, Bool.false_eq_true, if_false, hnext]

theorem mainEnded_of_ended {result : Except Panic Outcome} {clock : Nat}
    (h : m.threads = [.ended result clock]) : m.mainEnded = true := by
  simp [mainEnded, ending?, h]

/-- When the only thread has come to its end, so has the execution. -/
theorem ofMachine_of_ended {fuel : Nat} {result : Except Panic Outcome} {clock : Nat}
    (h : (m.runUntil mainEnded o fuel).threads = [.ended result clock]) (stop : Bool) :
    Execution.ofMachine o fuel stop m = some (result.map fun outcome =>
      { outcome, world := (m.released o fuel stop).world
        waitFault := (m.released o fuel stop).waitFault }) := by
  have hending : (m.runUntil mainEnded o fuel).ending? 0 = some (result, clock) := by
    simp [ending?, h]
  have hall : (m.released o fuel stop).allEnded = true := by
    cases stop <;> simp [released, allEnded, h]
  have hrun := runUntil_of_done (o := o) hall fuel
  unfold released at hall hrun ⊢
  simp only [Execution.ofMachine, hending]
  cases result with
  | error p => rfl
  | ok outcome =>
    simp only [hrun, hall, if_true]
    rfl

/-! ## Steps -/

/-- The machine after a turn that leaves the instruction `i` waiting for a thread of its own. -/
def fork (m : Machine) (n : Nat) (e : Executor) (i : Instruction) (child : Executor)
    (callers : List Suspended) (w : World) : Machine :=
  let m := { m with world := w }.settle
  let waiting := Thread.waiting e i m.threads.length callers
  { m with threads := m.threads.set n waiting ++ [.running child []] }

/-- What becomes of a machine when the thread `n` has a turn. -/
inductive Step (o : Options) (m : Machine) (n : Nat) : Machine → Prop where
  -- There is nothing that the thread can do.
  | idle : (∀ (e : Executor) (callers : List Suspended),
      m.threads[n]? ≠ some (.running e callers)) → Step o m n m
  | ready {e : Executor} {callers : List Suspended} {s : Focus} :
    m.threads[n]? = some (.running e callers) → Guarded.turn o ⟨m.world, e⟩ = .ok .ready s →
      Step o m n (m.put n (.running s.exec callers) s.world)
  | calling {e callee : Executor} {callers : List Suspended} {i : Instruction} {r : Reception}
      {s : Focus} :
    m.threads[n]? = some (.running e callers) →
      Guarded.turn o ⟨m.world, e⟩ = .ok (.calling i callee r) s →
      Step o m n (m.put n (.running callee (⟨s.exec, i, r⟩ :: callers)) s.world)
  | joining {e child : Executor} {callers : List Suspended} {i : Instruction} {s : Focus} :
    m.threads[n]? = some (.running e callers) →
      Guarded.turn o ⟨m.world, e⟩ = .ok (.joining i child) s →
      Step o m n (m.fork n s.exec i child callers s.world)
  -- The last executor of the thread is done.
  | finished {e : Executor} {s : Focus} :
    m.threads[n]? = some (.running e []) → Guarded.turn o ⟨m.world, e⟩ = .ok .done s →
      Step o m n (m.put n (.ended (.ok s.exec.outcome) s.exec.clock) s.world)
  -- An executor is done, and the one that has waited for it goes on.
  | returned {e : Executor} {c : Suspended} {callers : List Suspended} {s : Focus} :
    m.threads[n]? = some (.running e (c :: callers)) →
      Guarded.turn o ⟨m.world, e⟩ = .ok .done s →
      Step o m n (m.resumed n callers (Action.receive c.instruction c.reception s.exec.outcome)
        ⟨s.world, { c.exec with clock := s.exec.clock }⟩)
  | panicked {e : Executor} {callers : List Suspended} {p : Panic} {s : Focus} :
    m.threads[n]? = some (.running e callers) → Guarded.turn o ⟨m.world, e⟩ = .error p s →
      Step o m n (m.put n (.ended (.error p) s.exec.clock) s.world)
  -- The thread that has been waited for has ended.
  | joined {e : Executor} {i : Instruction} {child clock : Nat} {callers : List Suspended}
      {result : Except Panic Outcome} :
    m.threads[n]? = some (.waiting e i child callers) → m.ending? child = some (result, clock) →
      Step o m n (m.resumed n callers (Action.receiveJoined i result)
        ⟨m.world, { e with clock := max e.clock clock }⟩)

theorem step_advance (o : Options) (m : Machine) (n : Nat) : Step o m n (m.advance o n) := by
  unfold advance
  cases hthread : m.threads[n]? with
  | none => exact .idle (by simp [hthread])
  | some thread =>
    cases thread with
    | running e callers =>
      dsimp only
      cases hturn : Guarded.turn o ⟨m.world, e⟩ with
      | ok turn s =>
        cases turn with
        | ready => exact .ready hthread hturn
        | calling i callee r => exact .calling hthread hturn
        | joining i child => exact .joining hthread hturn
        | done =>
          cases callers with
          | nil => exact .finished hthread hturn
          | cons c callers => exact .returned hthread hturn
      | error p s => exact .panicked hthread hturn
    | waiting e i child callers =>
      dsimp only
      cases hending : m.ending? child with
      | none => exact .idle (by simp [hthread])
      | some ending => exact .joined hthread hending
    | ended result clock => exact .idle (by simp [hthread])

theorem put_threads (t : Thread) (w : World) :
    (m.put n t w).threads = m.threads.set n t ++ w.arrivals.map fun e => .running e [] :=
  rfl

theorem put_threads_self (hn : n < m.threads.length) (t : Thread) (w : World) :
    (m.put n t w).threads[n]? = some t := by
  rw [put_threads, List.getElem?_append_left (by simpa using hn), List.getElem?_set_self hn]

theorem put_world (t : Thread) (w : World) : (m.put n t w).world = { w with arrivals := [] } :=
  rfl

/-- The thread that is waited for comes behind those that nobody waits for. -/
theorem fork_threads_eq (hn : n < m.threads.length) (e child : Executor) (i : Instruction)
    (callers : List Suspended) (w : World) : (m.fork n e i child callers w).threads =
      m.threads.set n (.waiting e i (m.threads.length + w.arrivals.length) callers) ++
        (w.arrivals ++ [child]).map fun e => .running e [] := by
  have hlength : (m.threads ++ w.arrivals.map fun e => Thread.running e []).length =
      m.threads.length + w.arrivals.length := by
    rw [List.length_append, List.length_map]
  rw [List.map_append, ← List.append_assoc, ← List.set_append_left n _ hn, ← hlength]
  rfl

theorem fork_threads (hn : n < m.threads.length) (e child : Executor) (i : Instruction)
    (callers : List Suspended) (w : World) : ∃ k, (m.fork n e i child callers w).threads =
      m.threads.set n (.waiting e i k callers) ++
        (w.arrivals ++ [child]).map fun e => .running e [] :=
  ⟨_, fork_threads_eq hn e child i callers w⟩

theorem fork_threads_self (hn : n < m.threads.length) (e child : Executor) (i : Instruction)
    (callers : List Suspended) (w : World) : (m.fork n e i child callers w).threads[n]? =
      some (.waiting e i (m.threads.length + w.arrivals.length) callers) := by
  rw [fork_threads_eq hn, List.getElem?_append_left (by simpa using hn), List.getElem?_set_self hn]

/-- An instruction that is taken up again ends in a thread that goes on, or in a panic. -/
theorem resumed_cases (n : Nat) (callers : List Suspended) (a : Action Unit) (s : Focus) :
    (∃ v t, Guarded.attempt a s = .ok v t ∧
      m.resumed n callers a s = m.put n (.running t.exec callers) t.world) ∨
    ∃ p t, Guarded.attempt a s = .error p t ∧
      m.resumed n callers a s = m.put n (.ended (.error p) t.exec.clock) t.world := by
  unfold resumed
  cases h : Guarded.attempt a s with
  | ok v t => exact .inl ⟨v, t, rfl, rfl⟩
  | error p t => exact .inr ⟨p, t, rfl, rfl⟩

/-- Between turns no executor is left without a thread. -/
theorem after_arrivals (h : m.world.arrivals = []) (ev : Event) :
    (m.after o ev).world.arrivals = [] := by
  cases ev with
  | stop | host refusal => exact h
  | turn n =>
    have hstep := step_advance o m n
    change (m.advance o n).world.arrivals = []
    generalize m.advance o n = m' at hstep
    cases hstep with
    | idle _ => exact h
    | ready _ _ | calling _ _ | joining _ _ | finished _ _ | panicked _ _ => rfl
    | returned _ _ | joined _ _ =>
      rcases resumed_cases _ _ _ _ with ⟨_, _, -, h⟩ | ⟨_, _, -, h⟩
      · rw [h, put_world]
      · rw [h, put_world]

/-! ## Other threads -/

theorem put_threads_of_ne (hkn : k ≠ n) (hk : k < m.threads.length) (t : Thread) (w : World) :
    (m.put n t w).threads[k]? = m.threads[k]? := by
  rw [put_threads, List.getElem?_append_left (by simpa using hk), List.getElem?_set_ne hkn.symm]

theorem resumed_threads_of_ne (hkn : k ≠ n) (hk : k < m.threads.length) (callers : List Suspended)
    (a : Action Unit) (s : Focus) : (m.resumed n callers a s).threads[k]? = m.threads[k]? := by
  rcases resumed_cases n callers a s with ⟨v, t, -, h⟩ | ⟨p, t, -, h⟩
  · rw [h]
    exact put_threads_of_ne hkn hk _ _
  · rw [h]
    exact put_threads_of_ne hkn hk _ _

/-- A turn of one thread leaves the others as they are. -/
theorem advance_threads_of_ne (o : Options) (hkn : k ≠ n) (hk : k < m.threads.length) :
    (m.advance o n).threads[k]? = m.threads[k]? := by
  have hstep := step_advance o m n
  generalize m.advance o n = m' at hstep
  cases hstep with
  | idle _ => rfl
  | ready _ _ | calling _ _ | finished _ _ | panicked _ _ => exact put_threads_of_ne hkn hk _ _
  | returned _ _ | joined _ _ => exact resumed_threads_of_ne hkn hk _ _ _
  | joining hthread _ =>
    rcases fork_threads (List.getElem?_eq_some_iff.1 hthread).1 _ _ _ _ _ with ⟨waited, h⟩
    rw [h, List.getElem?_append_left (by simpa using hk), List.getElem?_set_ne hkn.symm]

/-! ## New threads -/

/-- A turn that changes something belongs to a thread that has not ended. It starts threads that
nobody waits for, and then perhaps one that the thread waits for. -/
theorem advance_cases (o : Options) (m : Machine) (n : Nat) :
    m.advance o n = m ∨ n < m.threads.length ∧ m.ending? n = none ∧
      ∃ c, (m.advance o n).detached = m.detached ++ List.range' m.threads.length c ∧
        ((m.advance o n).threads.length = m.threads.length + c ∨
          (m.advance o n).threads.length = m.threads.length + c + 1 ∧
            ∃ e i cs, (m.advance o n).threads[n]? =
              some (.waiting e i (m.threads.length + c) cs)) := by
  have hput (t : Thread) (w : World) : ∃ c,
      (m.put n t w).detached = m.detached ++ List.range' m.threads.length c ∧
        (m.put n t w).threads.length = m.threads.length + c := by
    refine ⟨w.arrivals.length, ?_, ?_⟩
    · change m.detached ++ List.range' (m.threads.set n t).length _ = _
      rw [List.length_set]
    · rw [put_threads, List.length_append, List.length_set, List.length_map]
  have hstep := step_advance o m n
  generalize m.advance o n = m' at hstep
  cases hstep with
  | idle _ => exact .inl rfl
  | ready hthread _ | calling hthread _ | finished hthread _ | panicked hthread _ =>
    rcases hput _ _ with ⟨c, hdetached, hlength⟩
    have hended : m.ending? n = none := by simp only [ending?, hthread]
    exact .inr ⟨(List.getElem?_eq_some_iff.1 hthread).1, hended, c, hdetached, .inl hlength⟩
  | returned hthread _ | joined hthread _ =>
    have hended : m.ending? n = none := by simp only [ending?, hthread]
    refine .inr ⟨(List.getElem?_eq_some_iff.1 hthread).1, hended, ?_⟩
    rcases resumed_cases n _ _ _ with ⟨_, _, -, h⟩ | ⟨_, _, -, h⟩
    · rw [h]
      rcases hput _ _ with ⟨c, hdetached, hlength⟩
      exact ⟨c, hdetached, .inl hlength⟩
    · rw [h]
      rcases hput _ _ with ⟨c, hdetached, hlength⟩
      exact ⟨c, hdetached, .inl hlength⟩
  | @joining e child callers i s hthread _ =>
    have hn := (List.getElem?_eq_some_iff.1 hthread).1
    have hended : m.ending? n = none := by simp only [ending?, hthread]
    have hthreads := fork_threads_eq hn s.exec child i callers s.world
    refine .inr ⟨hn, hended, s.world.arrivals.length, rfl, .inr ⟨?_, s.exec, i, callers, ?_⟩⟩
    · simp only [hthreads, List.length_append, List.length_set, List.length_map, List.length_cons,
        List.length_nil]
      omega
    · rw [hthreads, List.getElem?_append_left (by simpa using hn), List.getElem?_set_self hn]

/-- No thread is taken back to those that somebody waits for. -/
theorem detached_after (o : Options) (m : Machine) (ev : Event) :
    m.detached <+: (m.after o ev).detached := by
  cases ev with
  | stop | host refusal => exact List.prefix_rfl
  | turn n =>
    change m.detached <+: (m.advance o n).detached
    rcases advance_cases o m n with hsame | ⟨-, -, c, hdetached, -⟩
    · exact hsame.symm ▸ List.prefix_rfl
    · exact hdetached.symm ▸ List.prefix_append _ _

theorem detached_play (o : Options) (m : Machine) (es : List Event) :
    m.detached <+: (m.play o es).detached := by
  induction es generalizing m with
  | nil => exact List.prefix_rfl
  | cons ev es ih => exact (detached_after o m ev).trans (ih _)

/-! ## Threads at their end -/

theorem lt_of_ending? {x : Except Panic Outcome × Nat} (h : m.ending? k = some x) :
    k < m.threads.length := by
  unfold ending? at h
  cases hthread : m.threads[k]? with
  | none =>
    rw [hthread] at h
    cases h
  | some t => exact (List.getElem?_eq_some_iff.1 hthread).1

theorem advance_of_ended {x : Except Panic Outcome × Nat} (h : m.ending? n = some x) :
    m.advance o n = m := by
  unfold ending? at h
  unfold advance
  cases hthread : m.threads[n]? with
  | none => rfl
  | some t =>
    cases t with
    | ended result clock => rfl
    | running e callers | waiting e i child callers =>
      rw [hthread] at h
      cases h

/-- A thread that has ended stays as it is. -/
theorem ending?_advance {x : Except Panic Outcome × Nat} (h : m.ending? k = some x) (n : Nat) :
    (m.advance o n).ending? k = some x := by
  by_cases hkn : k = n
  · rw [← hkn, advance_of_ended h]
    exact h
  · rw [ending?, advance_threads_of_ne o hkn (lt_of_ending? h)]
    exact h

theorem ending?_after {x : Except Panic Outcome × Nat} (h : m.ending? k = some x) (ev : Event) :
    (m.after o ev).ending? k = some x := by
  cases ev with
  | turn n => exact ending?_advance h n
  | stop | host refusal => exact h

theorem ending?_play {x : Except Panic Outcome × Nat} (h : m.ending? k = some x)
    (es : List Event) : (m.play o es).ending? k = some x := by
  induction es generalizing m with
  | nil => exact h
  | cons ev es ih => exact ih (ending?_after h ev)

def Awaits (m : Machine) (k n : Nat) : Prop :=
  ∃ e i cs, m.threads[k]? = some (.waiting e i n cs)

theorem Awaits.ending?_eq_none (h : m.Awaits k n) : m.ending? k = none := by
  rcases h with ⟨e, i, cs, hthread⟩
  simp only [ending?, hthread]

/-- Nothing happens to a thread that waits for one that has not ended. -/
theorem advance_of_waiting {e : Executor} {i : Instruction} {child : Nat} {cs : List Suspended}
    (h : m.threads[n]? = some (.waiting e i child cs)) (hchild : m.ending? child = none) :
    m.advance o n = m := by
  simp only [advance, h, hchild]

/-! ## Invariants -/

end Machine

/-- A turn that is done has changed nothing. -/
theorem Guarded.eq_of_turn_done {o : Options} {s t : Focus} (h : turn o s = .ok .done t) :
    t = s := by
  have hturn : Ensures (fun _ => True) s (turn o) fun turn t => turn = .done → t = s := by
    have htrivial := (Passive.trivially o).stable
    refine ensures_turn htrivial (K := fun _ _ => True) (fun _ => htrivial) ?_ ?_ ?_ ?_ ?_ ?_
    · intro _ _
      rfl
    · intro _
      trivial
    · intro i t _ _
      cases hrun : i.run o t with
      | error e u => exact ensures_of_error hrun trivial
      | ok effect u =>
        refine ensures_of_ok hrun ?_
        cases effect with
        | flow f => trivial
        | call callee r => exact nofun
        | join child => exact nofun
    all_goals intros; trivial
  exact hturn.of_ok h rfl

/-- A thread whose running executor is as `E` says, and whose executors within an instruction are as
`S` says. -/
def Thread.Holds (E : Executor → Prop) (S : Instruction → Executor → Prop) : Thread → Prop
  | .running e callers => E e ∧ ∀ c ∈ callers, S c.instruction c.exec
  | .waiting e i _ callers => S i e ∧ ∀ c ∈ callers, S c.instruction c.exec
  | .ended .. => True

/-- An executor as a turn leaves it, together with the one that the turn has started. -/
def Turn.Holds (E : Executor → Prop) (S : Instruction → Executor → Prop) (e : Executor) :
    Turn → Prop
  | .ready => E e
  | .calling i callee _ => S i e ∧ E callee
  | .joining i child => S i e ∧ E child
  | .done => True

/-- A world as `W` says, in which every executor that is to have a thread is as `E` says. -/
def World.Holds (W : World → Prop) (E : Executor → Prop) (w : World) : Prop :=
  W w ∧ ∀ e ∈ w.arrivals, E e

namespace Machine

/-- A machine whose world is as `W` says, and whose threads are as `E` and `S` say. -/
structure Holds (W : World → Prop) (E : Executor → Prop) (S : Instruction → Executor → Prop)
    (m : Machine) : Prop where
  world : W m.world
  settled : m.world.arrivals = []
  threads : ∀ t ∈ m.threads, t.Holds E S

/-- What every turn keeps up that starts from a state with `A`. -/
structure Invariant (o : Options) (A : Focus → Prop) (W : World → Prop) (E : Executor → Prop)
    (S : Instruction → Executor → Prop) : Prop where
  arrivals {w : World} (arrivals : List Executor) : W w → W { w with arrivals }
  stopped {w : World} : W w → W { w with stopped := true }
  refusal {w : World} (refusal : Option String) : W w →
    W { w with host := { w.host with refusal } }
  turn {w : World} {e : Executor} : W w → w.arrivals = [] → E e → A ⟨w, e⟩ →
    Ensures (fun t => t.world.Holds W E) ⟨w, e⟩ (Guarded.turn o) fun turn t =>
      t.world.Holds W E ∧ turn.Holds E S t.exec
  receive {w : World} {e : Executor} {i : Instruction} (clock : Nat) (r : Reception)
    (outcome : Outcome) : W w → w.arrivals = [] → S i e →
    Ensures (fun t => t.world.Holds W E) ⟨w, { e with clock }⟩
      (Guarded.attempt (Action.receive i r outcome)) fun _ t => t.world.Holds W E ∧ E t.exec
  receiveJoined {w : World} {e : Executor} {i : Instruction} (clock : Nat)
    (result : Except Panic Outcome) : W w → w.arrivals = [] → S i e →
    Ensures (fun t => t.world.Holds W E) ⟨w, { e with clock }⟩
      (Guarded.attempt (Action.receiveJoined i result)) fun _ t => t.world.Holds W E ∧ E t.exec

variable {o : Options} {A : Focus → Prop} {W : World → Prop} {E : Executor → Prop}
  {S : Instruction → Executor → Prop} {m : Machine} {n : Nat}

/-- If the thread `n` moves next, it does so from a state with `A`. -/
def Admits (A : Focus → Prop) (m : Machine) (n : Nat) : Prop :=
  ∀ e callers, m.threads[n]? = some (.running e callers) → A ⟨m.world, e⟩

theorem admits_of_forall (h : ∀ t ∈ m.threads, ∀ e ∈ t.executors, A ⟨m.world, e⟩) (n : Nat) :
    m.Admits A n :=
  fun e _ hthread => h _ (List.mem_of_getElem? hthread) e List.mem_cons_self

section

variable (hinv : Invariant o A W E S) (hm : m.Holds W E S)
include hinv hm

theorem Holds.put {t : Thread} {w : World} (hw : w.Holds W E) (ht : t.Holds E S) :
    (m.put n t w).Holds W E S where
  world := hinv.arrivals [] hw.1
  settled := rfl
  threads := by
    intro t' ht'
    rw [put_threads, List.mem_append, List.mem_map] at ht'
    rcases ht' with ht' | ⟨e, he, rfl⟩
    · rcases List.mem_or_eq_of_mem_set ht' with ht' | rfl
      · exact hm.threads t' ht'
      · exact ht
    · exact ⟨hw.2 e he, by simp⟩

theorem Holds.fork {e child : Executor} {i : Instruction} {callers : List Suspended} {w : World}
    (hw : w.Holds W E) (he : S i e) (hcallers : ∀ c ∈ callers, S c.instruction c.exec)
    (hchild : E child) : (m.fork n e i child callers w).Holds W E S where
  world := hinv.arrivals [] hw.1
  settled := rfl
  threads := by
    intro t ht
    rcases List.mem_append.1 ht with ht | ht
    · rcases List.mem_or_eq_of_mem_set ht with ht | rfl
      · rcases List.mem_append.1 ht with ht | ht
        · exact hm.threads t ht
        · rcases List.mem_map.1 ht with ⟨a, ha, rfl⟩
          exact ⟨hw.2 a ha, by simp⟩
      · exact ⟨he, hcallers⟩
    · rw [List.mem_singleton] at ht
      subst ht
      exact ⟨hchild, by simp⟩

theorem Holds.resumed {a : Action Unit} {s : Focus} {callers : List Suspended}
    (ha : Ensures (fun t => t.world.Holds W E) s (Guarded.attempt a) fun _ t =>
      t.world.Holds W E ∧ E t.exec)
    (hcallers : ∀ c ∈ callers, S c.instruction c.exec) :
    (m.resumed n callers a s).Holds W E S := by
  rcases resumed_cases n callers a s with ⟨v, t, ht, h⟩ | ⟨p, t, ht, h⟩
  · rw [h]
    rcases ha.of_ok ht with ⟨hw, he⟩
    exact hm.put hinv hw ⟨he, hcallers⟩
  · rw [h]
    exact hm.put hinv (ha.of_error ht) trivial

/-- A turn of a thread keeps up what every turn of an executor keeps up. -/
theorem Holds.advance (hA : m.Admits A n) : (m.advance o n).Holds W E S := by
  have hstep := step_advance o m n
  generalize m.advance o n = m' at hstep
  -- What the thread that moves is known to be, and what its turn ensures.
  have hrunning (e : Executor) (callers : List Suspended)
      (h : m.threads[n]? = some (.running e callers)) :
      (∀ c ∈ callers, S c.instruction c.exec) ∧
        Ensures (fun t => t.world.Holds W E) ⟨m.world, e⟩ (Guarded.turn o) fun turn t =>
          t.world.Holds W E ∧ turn.Holds E S t.exec := by
    have hthread := hm.threads _ (List.mem_of_getElem? h)
    exact ⟨hthread.2, hinv.turn hm.world hm.settled hthread.1 (hA e callers h)⟩
  cases hstep with
  | idle _ => exact hm
  | ready hthread hturn =>
    rcases hrunning _ _ hthread with ⟨hcallers, hrun⟩
    rcases hrun.of_ok hturn with ⟨hw, he⟩
    exact hm.put hinv hw ⟨he, hcallers⟩
  | calling hthread hturn =>
    rcases hrunning _ _ hthread with ⟨hcallers, hrun⟩
    rcases hrun.of_ok hturn with ⟨hw, he, hcallee⟩
    exact hm.put hinv hw ⟨hcallee, List.forall_mem_cons.2 ⟨he, hcallers⟩⟩
  | joining hthread hturn =>
    rcases hrunning _ _ hthread with ⟨hcallers, hrun⟩
    rcases hrun.of_ok hturn with ⟨hw, he, hchild⟩
    exact hm.fork hinv hw he hcallers hchild
  | finished hthread hturn =>
    rcases hrunning _ _ hthread with ⟨-, hrun⟩
    exact hm.put hinv (hrun.of_ok hturn).1 trivial
  | panicked hthread hturn =>
    rcases hrunning _ _ hthread with ⟨-, hrun⟩
    exact hm.put hinv (hrun.of_error hturn) trivial
  | returned hthread hturn =>
    rcases hrunning _ _ hthread with ⟨hcallers, -⟩
    rcases List.forall_mem_cons.1 hcallers with ⟨hc, hcallers⟩
    cases Guarded.eq_of_turn_done hturn
    exact hm.resumed hinv (hinv.receive _ _ _ hm.world hm.settled hc) hcallers
  | joined hthread hending =>
    have hwaiting := hm.threads _ (List.mem_of_getElem? hthread)
    exact hm.resumed hinv (hinv.receiveJoined _ _ hm.world hm.settled hwaiting.1) hwaiting.2

theorem Holds.after {ev : Event} (hA : ∀ n, ev = .turn n → m.Admits A n) :
    (m.after o ev).Holds W E S := by
  cases ev with
  | turn n => exact hm.advance hinv (hA n rfl)
  | stop => exact ⟨hinv.stopped hm.world, hm.settled, hm.threads⟩
  | host refusal => exact ⟨hinv.refusal refusal hm.world, hm.settled, hm.threads⟩

/-- An invariant holds after every schedule whose turns it admits. -/
theorem Holds.play {es : List Event}
    (hA : ∀ x ∈ m.history o es, ∀ n, x.2 = .turn n → x.1.Admits A n) :
    (m.play o es).Holds W E S := by
  induction es generalizing m with
  | nil => exact hm
  | cons ev es ih =>
    rcases List.forall_mem_cons.1 hA with ⟨hfirst, hrest⟩
    exact ih (hm.after hinv hfirst) hrest

end

/-- A machine that is about to run a program. -/
theorem holds_start {world : World} {p : Program} {active : UInt32} (hw : W world)
    (harrivals : world.arrivals = []) (he : E { program := p, active, mode := o.mode }) :
    (Machine.start o world p active).Holds W E S where
  world := hw
  settled := harrivals
  threads := by
    intro t ht
    rw [start, List.mem_singleton] at ht
    subst ht
    exact ⟨he, by simp⟩

end Machine

end CellMachine
