import CellMachine.Proofs.Machine.Budget
import CellMachine.Proofs.Machine.Sequential

/-!
# Limits

This module proves that a limit of instructions shows nowhere but where it is reached. No
instruction can tell whether there is a limit, so that two runs with different limits are the same
as long as neither meets its own. A program that runs on its own and gets to the limit is cut off
exactly there: it is left with a fault that halts it in every error mode, and everything else is as
the last instruction within the limit has left it.
-/

namespace CellMachine

open Stateful

variable {o o' : Options} {m : Machine} {n N k : Nat} {i : Instruction} {s t : Focus}
  {l : Option Nat}

/-! ## Turns -/

/-- Nothing that an instruction does depends on the limit. -/
theorem Opcode.run_limit (op : Opcode) (o : Options) (l : Option Nat) (i : Instruction) :
    op.run { o with limit := l } i = op.run o i := by
  cases op with
  | spawn byLabel joined => cases byLabel <;> rfl
  | _ => rfl

theorem Instruction.run_limit (i : Instruction) (o : Options) (l : Option Nat) :
    i.run { o with limit := l } = i.run o := by
  unfold run
  cases Opcode.ofCode? i.opcode with
  | none => rfl
  | some op => exact op.run_limit o l i

theorem Action.runInstruction_limit (i : Instruction) (o : Options) (l : Option Nat) :
    runInstruction { o with limit := l } i = runInstruction o i := by
  rw [runInstruction, i.run_limit, runInstruction]

/-- The executor has not reached the limit `N`, if it takes up an instruction without one. -/
def Focus.Below (o : Options) (N : Nat) (s : Focus) : Prop :=
  s.starts { o with limit := none } = true → s.exec.steps < N

namespace Guarded

theorem turn_of_idle (h : s.exec.isLive = false ∨ s.world.stopped = true) :
    turn o s = .ok .done s := by
  have hidle : (!s.exec.isLive || s.world.stopped) = true := by
    rcases h with h | h <;> simp [h]
  rw [turn, get_bind, if_pos hidle]
  rfl

/-- A turn is the same with and without a limit that has not been reached. -/
theorem turn_limit (h : s.Below o N) :
    turn { o with limit := some N } s = turn { o with limit := none } s := by
  rcases turn_cases { o with limit := none } s
    with ⟨hidle, hturn⟩ | ⟨-, hexhausted, -⟩ | ⟨i, hi, hturn⟩
  · rw [hturn, turn_of_idle hidle]
  · cases hexhausted
  · have hsteps : s.exec.steps < N := h hi.starts
    have hwithin : s.exec.isExhausted { o with limit := some N } = false :=
      decide_eq_false (Nat.not_le.2 hsteps)
    have htakesUp : s.TakesUp { o with limit := some N } i :=
      ⟨hi.live, hi.notStopped, hwithin, hi.instruction⟩
    rw [hturn, turn_of_takesUp htakesUp, Action.runInstruction_limit i o (some N),
      Action.runInstruction_limit i o none]

end Guarded

/-! ## Runs -/

namespace Machine

/-- A step is the same with and without a limit that has not been reached. -/
theorem advance_limit (h : m.Admits (Focus.Below o N) n) :
    m.advance { o with limit := some N } n = m.advance { o with limit := none } n := by
  unfold advance
  cases hthread : m.threads[n]? with
  | none => rfl
  | some t =>
    cases t with
    | running e callers => simp only [Guarded.turn_limit (h e callers hthread)]
    | waiting e i child callers => rfl
    | ended result clock => rfl

theorem after_limit {ev : Event} (h : ∀ n, ev = .turn n → m.Admits (Focus.Below o N) n) :
    m.after { o with limit := some N } ev = m.after { o with limit := none } ev := by
  cases ev with
  | turn n => exact advance_limit (h n rfl)
  | stop | host refusal => rfl

/-- Schedules along which the limit is not reached are the same with and without it. -/
theorem play_limit {es : List Event} (h : ∀ x ∈ m.history { o with limit := none } es, ∀ n,
      x.2 = .turn n → x.1.Admits (Focus.Below o N) n) :
    m.play { o with limit := some N } es = m.play { o with limit := none } es := by
  induction es generalizing m with
  | nil => rfl
  | cons ev es ih =>
    rcases List.forall_mem_cons.1 h with ⟨hfirst, hrest⟩
    change (m.after { o with limit := some N } ev).play _ es = _
    rw [after_limit hfirst]
    exact ih hrest

/-- In a machine with one thread only its turns count. -/
theorem play_eq_turns (h : ∀ k, (m.turns o k).threads.length = 1) (ns : List Nat) :
    m.play o (ns.map .turn) = m.turns o (ns.count 0) := by
  induction ns using List.reverseRecOn with
  | nil => rfl
  | append_singleton ns n ih =>
    rw [List.map_append, play_append, ih, List.count_append]
    change (m.turns o (ns.count 0)).advance o n = _
    rcases Nat.eq_zero_or_pos n with rfl | hn
    · exact (turns_succ _).symm
    · have hnone : (m.turns o (ns.count 0)).threads[n]? = none :=
        List.getElem?_eq_none_iff.2 ((h _).symm ▸ hn)
      rw [List.count_singleton, if_neg (by simpa using Nat.ne_of_gt hn)]
      simp only [advance, hnone, Nat.add_zero]

end Machine

/-! ## The cut -/

/-- The executor with a mark for an error in its output, if its mode displays errors. -/
def Executor.marked (e : Executor) : Executor :=
  { e with output := if e.mode.displays then e.output ++ errorMarker else e.output }

/-- The executor after it has been cut off at the limit `N`. -/
def Executor.cutOff (N : Nat) (e : Executor) : Executor :=
  e.marked.afterFault (.instructionLimitExceeded N)

/-- If anything is listening, it takes what is printed about the fault. -/
def Focus.Reports (f : Fault) (s : Focus) : Prop :=
  ∀ k, s.world.sink = some k → k.refuses ≠ some (s.exec.diagnostic f)

theorem Executor.outcome_cutOff (N : Nat) (e : Executor) : (e.cutOff N).outcome =
    { output := if e.mode.displays then e.output ++ errorMarker else e.output
      errored := e.errored || e.mode.counts
      error := some (.instructionLimitExceeded N) } := by
  simp [cutOff, marked, afterFault, outcome]

namespace Guarded

theorem print_of_reports {text : String}
    (h : ∀ k, s.world.sink = some k → k.refuses ≠ some text) :
    ∃ sink, print text s = .ok () { s with world := { s.world with sink } } := by
  unfold print
  rw [get_bind]
  cases hsink : s.world.sink with
  | none => exact ⟨s.world.sink, rfl⟩
  | some k =>
    have hwrite : k.write text = .ok { k with lines := k.lines ++ [text] } := if_neg (h k hsink)
    simp only [hwrite]
    exact ⟨_, rfl⟩

theorem handle_of_reports {f : Fault} (h : s.Reports f) : ∃ sink, handle f s =
    .ok () ⟨{ s.world with sink }, s.exec.marked.afterFault f⟩ := by
  unfold Executor.marked
  unfold handle
  rw [get_bind]
  cases hdisplays : s.exec.mode.displays with
  | false => exact ⟨s.world.sink, rfl⟩
  | true =>
    rcases print_of_reports (s := { s with exec.output := s.exec.output ++ errorMarker }) h
      with ⟨sink, hprint⟩
    exact ⟨sink, bind_of_ok hprint _⟩

/-- An executor that has reached the limit is cut off in its next turn. -/
theorem turn_of_exhausted (hlive : s.exec.isLive = true) (hstopped : s.world.stopped = false)
    (hsteps : N ≤ s.exec.steps) (h : s.Reports (.instructionLimitExceeded N)) :
    ∃ sink, turn { o with limit := some N } s =
      .ok .ready ⟨{ s.world with sink }, s.exec.cutOff N⟩ := by
  rcases handle_of_reports h with ⟨sink, hhandle⟩
  have hexhausted : s.exec.isExhausted { o with limit := some N } = true :=
    decide_eq_true hsteps
  have hbusy : (!s.exec.isLive || s.world.stopped) = false := by simp [hlive, hstopped]
  refine ⟨sink, ?_⟩
  rw [turn, get_bind, hbusy, hexhausted]
  exact bind_of_ok hhandle _

end Guarded

namespace Machine

variable {e e' : Executor} {world : World} {p : Program} {active : UInt32}

theorem turns_arrivals (hm : m.world.arrivals = []) (k : Nat) :
    (m.turns o k).world.arrivals = [] := by
  induction k with
  | zero => exact hm
  | succ k ih =>
    rw [turns_succ]
    exact after_arrivals ih (.turn 0)

/-- An executor that stays alone without a limit has started an instruction. -/
theorem starts_of_alone (hm : m.world.arrivals = []) (hlimit : o.limit = none)
    (h : m.threads = [.running e []]) (h' : (m.advance o 0).threads = [.running e' []]) :
    m.starts o 0 = true ∧ e'.steps = e.steps + 1 := by
  have hthread : m.threads[0]? = some (.running e []) := by rw [h]; rfl
  have hthread' : (m.advance o 0).threads[0]? = some (.running e' []) := by rw [h']; rfl
  have hunlimited : e.isExhausted o = false := by rw [Executor.isExhausted, hlimit]
  -- It would have come to its end otherwise.
  have hstarts : m.starts o 0 = true := by
    rcases Guarded.turn_cases o ⟨m.world, e⟩ with ⟨-, hturn⟩ | ⟨-, hexhausted, -⟩ | ⟨i, hi, -⟩
    · simp only [advance, hthread, hturn] at hthread'
      rw [put_threads_self (List.getElem?_eq_some_iff.1 hthread).1] at hthread'
      cases hthread'
    · rw [hunlimited] at hexhausted
      cases hexhausted
    · rw [starts_of_running hthread]
      exact hi.starts
  refine ⟨hstarts, ?_⟩
  rcases moved_advance (o := o) (world_fresh hm) hthread with ⟨t', started, hthreads, -, hmoves, -⟩
  rw [hstarts] at hmoves
  rw [h', h] at hthreads
  cases (List.cons.inj hthreads).1
  cases hmoves with
  | started _ hsteps => exact hsteps

/-- After `k` turns that leave it alone, an executor has started `k` instructions. -/
theorem steps_of_alone (hm : m.world.arrivals = []) (hlimit : o.limit = none)
    (hstart : ∀ e, m.threads = [.running e []] → e.steps = 0)
    (halone : ∀ j, j ≤ k → ∃ e, (m.turns o j).threads = [.running e []])
    (h : (m.turns o k).threads = [.running e []]) : e.steps = k := by
  induction k generalizing e with
  | zero => exact hstart e h
  | succ k ih =>
    rcases halone k (Nat.le_succ k) with ⟨e₀, h₀⟩
    have hsteps := ih (fun j hj => halone j (Nat.le_succ_of_le hj)) h₀
    rw [turns_succ] at h
    rw [(starts_of_alone (turns_arrivals hm k) hlimit h₀ h).2, hsteps]

/-- Up to the limit an executor on its own has the same turns with it as without it. -/
theorem turns_limit (hm : m.world.arrivals = [])
    (hstart : ∀ e, m.threads = [.running e []] → e.steps = 0)
    (halone : ∀ j, j ≤ N → ∃ e, (m.turns { o with limit := none } j).threads = [.running e []])
    (hk : k ≤ N) :
    m.turns { o with limit := some N } k = m.turns { o with limit := none } k := by
  induction k with
  | zero => rfl
  | succ k ih =>
    rw [turns_succ, turns_succ, ih (Nat.le_of_succ_le hk)]
    refine advance_limit fun e callers hthread _ => ?_
    rcases halone k (Nat.le_of_succ_le hk) with ⟨e₀, h₀⟩
    rw [h₀] at hthread
    cases hthread
    -- It has started an instruction in each of its turns, and is still within the limit.
    have hsteps := steps_of_alone hm rfl hstart
      (fun j hj => halone j (Nat.le_trans hj (Nat.le_of_succ_le hk))) h₀
    exact hsteps ▸ hk

/-- At the limit an executor on its own is cut off, and then it comes to its end. -/
theorem turns_of_cut (hm : m.world.arrivals = []) (h : m.threads = [.running e []])
    (hsteps : N ≤ e.steps) (hstarts : m.starts { o with limit := none } 0 = true)
    (hreports : Focus.Reports (.instructionLimitExceeded N) ⟨m.world, e⟩) :
    (m.turns { o with limit := some N } 1).threads = [.running (e.cutOff N) []] ∧
      ∃ sink clock, (m.turns { o with limit := some N } 2).threads =
          [.ended (.ok (e.cutOff N).outcome) clock] ∧
        (m.turns { o with limit := some N } 2).world = { m.world with sink, arrivals := [] } := by
  have hthread : m.threads[0]? = some (.running e []) := by rw [h]; rfl
  rw [starts_of_running hthread] at hstarts
  rcases Focus.exists_takesUp_of_starts hstarts with ⟨i, hi⟩
  rcases Guarded.turn_of_exhausted (o := o) hi.live hi.notStopped hsteps hreports
    with ⟨sink, hturn⟩
  have hfirst : m.turns { o with limit := some N } 1 =
      m.put 0 (.running (e.cutOff N) []) { m.world with sink } := by
    change m.advance { o with limit := some N } 0 = _
    simp only [advance, hthread, hturn]
  have hthreads : (m.turns { o with limit := some N } 1).threads = [.running (e.cutOff N) []] := by
    rw [hfirst, put_threads, h, hm]
    rfl
  refine ⟨hthreads, sink, (e.cutOff N).clock, ?_⟩
  -- An executor that has been cut off does not run.
  have hthread' : (m.turns { o with limit := some N } 1).threads[0]? =
      some (.running (e.cutOff N) []) := by
    rw [hthreads]
    rfl
  have hrunning : (e.cutOff N).running = false := Executor.afterFault_running_of_limit _ N
  have hdone := Guarded.turn_of_idle (o := { o with limit := some N })
    (s := ⟨(m.turns { o with limit := some N } 1).world, e.cutOff N⟩)
    (.inl (by simp [Executor.isLive, hrunning]))
  have hsecond : m.turns { o with limit := some N } 2 =
      (m.turns { o with limit := some N } 1).put 0
        (.ended (.ok (e.cutOff N).outcome) (e.cutOff N).clock)
        (m.turns { o with limit := some N } 1).world := by
    rw [turns_succ]
    simp only [advance, hthread', hdone]
  refine ⟨?_, ?_⟩
  · rw [hsecond, put_threads, hthreads, turns_arrivals hm]
    rfl
  · rw [hsecond, put_world, hfirst, put_world]

/-- A thread that has come to its end stays there. -/
theorem turns_of_ended {result : Except Panic Outcome} {clock : Nat}
    (h : m.threads = [.ended result clock]) (k : Nat) : m.turns o k = m := by
  induction k with
  | zero => rfl
  | succ k ih =>
    have hthread : m.threads[0]? = some (.ended result clock) := by rw [h]; rfl
    rw [turns_succ, ih]
    simp only [advance, hthread]

theorem turns_add (k j : Nat) : m.turns o (k + j) = (m.turns o k).turns o j := by
  rw [turns, List.replicate_add, play_append]
  rfl

/-- After the cut no instruction is dispatched. -/
theorem not_dispatches_of_cut (hm : m.world.arrivals = []) (h : m.threads = [.running e []])
    (hsteps : N ≤ e.steps) (hstarts : m.starts { o with limit := none } 0 = true)
    (hreports : Focus.Reports (.instructionLimitExceeded N) ⟨m.world, e⟩) (k : Nat)
    (i : Instruction) (t : Focus) :
    ¬(m.turns { o with limit := some N } k).Dispatches { o with limit := some N } 0 i t := by
  rintro ⟨e', callers, hthread, hdispatched⟩
  rcases turns_of_cut hm h hsteps hstarts hreports with ⟨hfirst, sink, clock, hsecond, -⟩
  rcases k with _ | _ | k
  · -- It has reached the limit, is halted after that, and has come to its end in all later states.
    change m.threads[0]? = _ at hthread
    rw [h] at hthread
    cases hthread
    exact of_decide_eq_false hdispatched.notExhausted hsteps
  · rw [hfirst] at hthread
    cases hthread
    have hlive := hdispatched.live
    have hrunning : (e.cutOff N).running = false := Executor.afterFault_running_of_limit _ N
    simp [Executor.isLive, hrunning] at hlive
  · rw [show k + 1 + 1 = 2 + k from Nat.add_comm k 2, turns_add, turns_of_ended hsecond, hsecond]
      at hthread
    cases hthread

/-- The executor of the only thread is new, runs on its own for `N` turns without a limit, is then
`e`, and would start another instruction. -/
structure Outruns (o : Options) (m : Machine) (N : Nat) (e : Executor) : Prop where
  settled : m.world.arrivals = []
  fresh : ∀ e, m.threads = [.running e []] → e.steps = 0
  alone : ∀ k, k ≤ N → ∃ e, (m.turns { o with limit := none } k).threads = [.running e []]
  last : (m.turns { o with limit := none } N).threads = [.running e []]
  more : (m.turns { o with limit := none } N).starts { o with limit := none } 0 = true

namespace Outruns

variable (h : m.Outruns o N e)
include h

theorem steps_eq (hk : k ≤ N)
    (he : (m.turns { o with limit := none } k).threads = [.running e' []]) : e'.steps = k :=
  steps_of_alone h.settled rfl h.fresh (fun j hj => h.alone j (Nat.le_trans hj hk)) he

theorem turns_eq (hk : k ≤ N) :
    m.turns { o with limit := some N } k = m.turns { o with limit := none } k :=
  turns_limit h.settled h.fresh h.alone hk

/-- Behind the limit the run is that of the machine that is cut off. -/
theorem turns_add_eq (j : Nat) : m.turns { o with limit := some N } (N + j) =
    (m.turns { o with limit := none } N).turns { o with limit := some N } j := by
  rw [turns_add, h.turns_eq (Nat.le_refl N)]

theorem le_steps : N ≤ e.steps := Nat.le_of_eq (h.steps_eq (Nat.le_refl N) h.last).symm

variable (hreports : Focus.Reports (.instructionLimitExceeded N)
  ⟨(m.turns { o with limit := none } N).world, e⟩)
include hreports

/-- Exactly the instructions in front of the limit are dispatched. -/
theorem dispatches_iff (k : Nat) (i : Instruction) (t : Focus) :
    (m.turns { o with limit := some N } k).Dispatches { o with limit := some N } 0 i t ↔
      k < N ∧ (m.turns { o with limit := none } k).Dispatches { o with limit := none } 0 i t := by
  rcases Nat.lt_or_ge k N with hk | hk
  · -- Both runs are in the same state, and within the limit.
    rw [h.turns_eq (Nat.le_of_lt hk)]
    refine ⟨?_, ?_⟩
    · rintro ⟨e', callers, hthread, hd⟩
      exact ⟨hk, e', callers, hthread, hd.live, hd.notStopped, rfl, hd.instruction, hd.before⟩
    · rintro ⟨-, e', callers, hthread, hd⟩
      rcases h.alone k (Nat.le_of_lt hk) with ⟨e₀, he₀⟩
      have hsame : some (Thread.running e₀ []) = some (Thread.running e' callers) := by
        rw [← hthread, he₀]
        rfl
      cases hsame
      have hsteps : e'.steps < N := (h.steps_eq (Nat.le_of_lt hk) he₀).symm ▸ hk
      have hwithin : e'.isExhausted { o with limit := some N } = false :=
        decide_eq_false (Nat.not_le.2 hsteps)
      exact ⟨e', [], hthread, hd.live, hd.notStopped, hwithin, hd.instruction, hd.before⟩
  · have hnone := not_dispatches_of_cut (turns_arrivals h.settled N) h.last h.le_steps h.more
      hreports (k - N) i t
    rw [← h.turns_add_eq, Nat.add_sub_of_le hk] at hnone
    exact ⟨fun hd => absurd hd hnone, fun hd => absurd hd.1 (Nat.not_lt.2 hk)⟩

/-- The run is over in two turns behind the limit. -/
theorem turns_of_le (hk : N + 2 ≤ k) : ∃ sink clock,
    (m.turns { o with limit := some N } k).threads = [.ended (.ok (e.cutOff N).outcome) clock] ∧
      (m.turns { o with limit := some N } k).world =
        { (m.turns { o with limit := none } N).world with sink, arrivals := [] } := by
  rcases turns_of_cut (turns_arrivals h.settled N) h.last h.le_steps h.more hreports
    with ⟨-, sink, clock, hsecond, hworld⟩
  rw [← h.turns_add_eq] at hsecond hworld
  have hlater := turns_of_ended (o := { o with limit := some N }) hsecond (k - (N + 2))
  rw [← turns_add, Nat.add_sub_cancel' hk] at hlater
  rw [hlater]
  exact ⟨sink, clock, hsecond, hworld⟩

/-- There is only one thread all along. -/
theorem length_turns (k : Nat) : (m.turns { o with limit := some N } k).threads.length = 1 := by
  rcases Nat.lt_or_ge k (N + 2) with hk | hk
  · rcases Nat.lt_or_ge N k with hN | hN
    · have hlast : k = N + 1 := by omega
      rcases turns_of_cut (turns_arrivals h.settled N) h.last h.le_steps h.more hreports
        with ⟨hfirst, -⟩
      rw [hlast, h.turns_add_eq, hfirst]
      rfl
    · rcases h.alone k hN with ⟨e₀, he₀⟩
      rw [h.turns_eq hN, he₀]
      rfl
  · rcases h.turns_of_le hreports hk with ⟨sink, clock, hended, -⟩
    rw [hended]
    rfl

end Outruns

/-- A limit that no executor reaches shows nowhere, whatever the order of events; and if no thread
is detached, it does not matter if the order is another one without the limit. A program that runs
on its own and would start more instructions starts the same ones up to the limit and no others, and
its run ends, in every error mode, with the fault of the limit and with everything else as it is at
that place; all this if the sink takes what is printed about the fault. -/
theorem cut_at_limit (o : Options) (N : Nat) (m : Machine) :
    let limited : Options := { o with limit := some N }
    let unlimited : Options := { o with limit := none }
    let cut := m.turns unlimited N
    (∀ es, (∀ x ∈ m.history unlimited es, ∀ n, x.2 = .turn n → x.1.Admits (Focus.Below o N) n) →
        m.play limited es = m.play unlimited es) ∧
      (∀ ns ns' : List Nat, m.Sequential →
        (∀ x ∈ m.history unlimited (ns.map .turn), ∀ n, x.2 = .turn n →
          x.1.Admits (Focus.Below o N) n) →
        (m.play unlimited (ns.map .turn)).detached = [] →
        (m.play unlimited (ns.map .turn)).mainEnded = true →
        (m.play limited (ns'.map .turn)).mainEnded = true →
          m.play limited (ns'.map .turn) = m.play unlimited (ns.map .turn)) ∧
      ∀ e, m.Outruns o N e → Focus.Reports (.instructionLimitExceeded N) ⟨cut.world, e⟩ →
        (∀ ns : List Nat, m.play limited (ns.map .turn) = m.turns limited (ns.count 0)) ∧
          (∀ k i t, (m.turns limited k).Dispatches limited 0 i t ↔
            k < N ∧ (m.turns unlimited k).Dispatches unlimited 0 i t) ∧
          ∀ k, N + 2 ≤ k → ∃ outcome clock,
            (m.turns limited k).ending? 0 = some (.ok outcome, clock) ∧
            outcome =
              { output := if e.mode.displays then e.output ++ errorMarker else e.output
                errored := e.errored || e.mode.counts
                error := some (.instructionLimitExceeded N) } ∧
            (m.turns limited k).world.table = cut.world.table ∧
            (m.turns limited k).world.host = cut.world.host ∧
            (m.turns limited k).world.primary = cut.world.primary ∧
            (m.turns limited k).world.bundle = cut.world.bundle ∧
            (m.turns limited k).world.input = cut.world.input := by
  intro limited unlimited cut
  refine ⟨fun es hbelow => play_limit hbelow, ?_, ?_⟩
  · intro ns ns' hm hbelow hdetached hended hended'
    have hplay := play_limit hbelow
    rw [← hplay]
    refine hm.play_eq ?_ ?_ hended'
    · rw [hplay]
      exact hdetached
    · rw [hplay]
      exact hended
  · intro e houtruns hreports
    refine ⟨play_eq_turns (houtruns.length_turns hreports), houtruns.dispatches_iff hreports, ?_⟩
    intro k hk
    rcases houtruns.turns_of_le hreports hk with ⟨sink, clock, hended, hworld⟩
    have hending : (m.turns { o with limit := some N } k).ending? 0 =
        some (.ok (e.cutOff N).outcome, clock) := by
      rw [ending?, hended]
      rfl
    refine ⟨_, clock, hending, Executor.outcome_cutOff N e, ?_⟩
    rw [hworld]
    exact ⟨rfl, rfl, rfl, rfl, rfl⟩

end Machine

/-- Two instructions that do nothing. -/
def Program.idle : Program := .ofList [⟨0, 58, []⟩, ⟨1, 58, []⟩]

namespace Machine

/-- The program is over with its second instruction, and cut off behind its first. -/
theorem cut_at_limit_idle :
    let m := Machine.start {} {} .idle
    m.play { limit := some 2 } ([1, 0, 0, 0].map .turn) = m.play {} ([0, 0, 0].map .turn) ∧
      ∃ outcome clock,
        (m.play { limit := some 1 } ([0, 0, 1, 0].map .turn)).ending? 0 =
          some (.ok outcome, clock) ∧
        outcome = ⟨errorMarker, true, some (.instructionLimitExceeded 1)⟩ ∧
        (m.play { limit := some 1 } ([0, 0, 1, 0].map .turn)).world.table = Table.initial := by
  intro m
  have hbelow : ∀ x ∈ m.history {} ([0, 0, 0].map .turn), ∀ t ∈ x.1.threads, ∀ e ∈ t.executors,
      Focus.Below {} 2 ⟨x.1.world, e⟩ := by
    unfold Focus.Below
    decide +kernel
  have houtruns : m.Outruns {} 1 { program := .idle, active := 0, ip := 1, steps := 1 } := by
    refine ⟨rfl, ?_, ?_, rfl, rfl⟩
    · intro e he
      cases he
      rfl
    · intro k hk
      rcases Nat.le_one_iff_eq_zero_or_eq_one.1 hk with rfl | rfl
      · exact ⟨_, rfl⟩
      · exact ⟨_, rfl⟩
  have hsame := (cut_at_limit {} 2 m).2.1 [0, 0, 0] [1, 0, 0, 0] (sequential_start _ _ _ _)
    (fun x hx n _ => admits_of_forall (hbelow x hx) n) rfl rfl rfl
  rcases (cut_at_limit {} 1 m).2.2 _ houtruns (fun k hk => by cases hk) with ⟨hturns, -, hcut⟩
  rcases hcut 3 (Nat.le_refl 3) with ⟨outcome, clock, hended, houtcome, htable, -⟩
  have hplay :
      m.play { limit := some 1 } ([0, 0, 1, 0].map .turn) = m.turns { limit := some 1 } 3 :=
    hturns [0, 0, 1, 0]
  refine ⟨hsame, outcome, clock, ?_, houtcome, ?_⟩
  · rw [hplay]
    exact hended
  · rw [hplay]
    exact htable

end Machine

/-- A handler that refuses every instruction. -/
def Handler.barrier : Handler where
  name := "barrier"
  claimed := []
  before := fun _ => .refuse "barred"
  handle := fun _ => pure ()

namespace Machine

/-- The program in a namespace whose handler refuses its instructions. -/
def barred : Machine :=
  .start {} { table := .insert Table.initial 0 { handler := some .barrier } } .idle

/-- A sink that refuses what is printed when the program is cut off behind its first instruction. -/
def muffler : Sink where
  refuses := some "ERROR: instruction limit exceeded: 1 LINE: 1 CODE: 58"

/-- The program in front of that sink. -/
def muffled : Machine := .start {} { sink := some muffler } .idle

/-- An instruction that a handler refuses counts without being dispatched, so that a limit of zero
shows in a run that dispatches nothing. And a program that is cut off ends in a panic if the sink
refuses what is printed about it. -/
theorem limit_inexact :
    (∀ x ∈ Execution.steps {} 9 false barred, ∀ i t, ¬x.1.Dispatches {} x.2 i t) ∧
      (Execution.ofMachine {} 9 false barred).map (fun r => r.toOption.map (·.outcome.error)) =
        some (some (some (.extension (.refused "barred")))) ∧
      (Execution.ofMachine { limit := some 0 } 9 false barred).map
          (fun r => r.toOption.map (·.outcome.error)) =
        some (some (some (.instructionLimitExceeded 0))) ∧
      (muffled.turns {} 1).starts {} 0 = true ∧
      (Execution.ofMachine {} 9 false muffled).map (fun r => r.toOption.map (·.outcome.error)) =
        some (some none) ∧
      (Execution.ofMachine { limit := some 1 } 9 false muffled).map
          (fun r => r.toOption.map (·.outcome.error)) =
        some none := by
  refine ⟨?_, by decide +kernel, by decide +kernel, by decide +kernel, by decide +kernel,
    by decide +kernel⟩
  rintro x hx i t ⟨e, callers, hthread, hdispatched⟩
  rcases hx with _ | ⟨_, _ | ⟨_, hx⟩⟩
  · cases hthread
    cases Option.some.inj hdispatched.instruction
    cases hdispatched.before
  · -- The refusal has halted the executor.
    cases hthread
    cases hdispatched.live
  · cases hx

end Machine

end CellMachine
