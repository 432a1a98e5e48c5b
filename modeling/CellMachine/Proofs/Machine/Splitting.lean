import CellMachine.Proofs.Machine.Schedule
import CellMachine.Proofs.Machine.Spawn

/-!
# Spawns within schedules

This module proves where an executor goes on that has given a part of its program to a thread of its
own. Its position follows the spawning instruction to its new place, it waits there if it has to,
and then goes on with the instruction behind, whatever other threads do in the meantime.
-/

namespace CellMachine

open Stateful

variable {o : Options} {p : Program} {q n : Nat} {started : List Executor}
  {callers : List Suspended} {i : Instruction} {s t : Focus}

/-! ## Going on behind an instruction -/

/-- The executor goes on behind the position `q` of the program `p`, or not at all. -/
def Executor.GoesOn (p : Program) (q : Nat) (e : Executor) : Prop :=
  e.running = false ∨ e.program = p ∧ e.ip = q + 1

/-- The executor on top of `callers`, if it is still there, is at the position `q` of the program
`p` and waits, or goes on behind it. -/
def Thread.GoesOn (p : Program) (q : Nat) (callers : List Suspended) : Thread → Prop
  | .running e cs => cs.length < callers.length ∨ cs = callers ∧ e.GoesOn p q
  | .waiting e _ _ cs => cs = callers ∧ e.program = p ∧ e.ip = q
  | .ended .. => True

/-- The state is at the position `q` of the program `p`, and has started these executors. -/
def Focus.Stays (p : Program) (q : Nat) (started : List Executor) (s : Focus) : Prop :=
  s.exec.program = p ∧ s.exec.ip = q ∧ s.world.arrivals = started

theorem passive_stays (o : Options) (p : Program) (q : Nat) (started : List Executor) :
    Passive o (Focus.Stays p q started) :=
  Passive.ofPlace o fun p' q' started' => p' = p ∧ q' = q ∧ started' = started

theorem Focus.Stays.follow (h : s.Stays p q started) : (s.exec.follow .next).GoesOn p q :=
  .inr ⟨h.1, congrArg (· + 1) h.2.1⟩

theorem Focus.Stays.afterFault (h : s.Stays p q started) (f : Fault) :
    (s.exec.afterFault f).GoesOn p q := by
  rcases s.exec.afterFault_cases f with ⟨hip, -⟩ | ⟨-, hhalted⟩
  · exact .inr ⟨(s.exec.afterFault_program f).trans h.1, by rw [hip, h.2.1]⟩
  · exact .inl hhalted

/-- The call in front of an instruction leaves the executor where it is. -/
theorem Focus.Dispatches.stays (h : s.Dispatches o i t) :
    t.Stays s.exec.program s.exec.ip s.world.arrivals := by
  have hbefore := (passive_stays o s.exec.program s.exec.ip s.world.arrivals).maintains_callHook
    (s := s.counted) ⟨rfl, rfl, rfl⟩ .before i
  exact hbefore.of_ok h.before

theorem Executor.GoesOn.get?_of_takesUp {e : Executor} {w : World} (h : e.GoesOn p q)
    (hi : Focus.TakesUp o ⟨w, e⟩ i) : p.get? (q + 1) = some i := by
  rcases h with hhalted | ⟨rfl, hip⟩
  · have hlive := hi.live
    simp only [Executor.isLive, hhalted, Bool.false_and, Bool.false_eq_true] at hlive
  · exact hip ▸ hi.instruction

/-! ## Turns -/

namespace Guarded

/-- An instruction that goes on to the next one does so whatever becomes of its end. -/
theorem ensures_turn_of_next {u : Focus} (h : s.Dispatches o i t)
    (hrun : i.run o t = .ok (.flow .next) u) (hu : u.Stays p q started) :
    Ensures (Focus.Stays p q started) s (turn o) fun turn v =>
      turn = .ready ∧ v.exec.GoesOn p q ∧ v.world.arrivals = started := by
  unfold Ensures
  rw [turn_of_flow h hrun]
  have hstays := (passive_stays o p q started).stable
  refine ensures_finishing hstays hstays hu (fun _ _ _ hv => hv) ?_ ?_
  · intro v hv
    exact ⟨rfl, hv.follow, hv.2.2⟩
  · intro f v hv
    exact ⟨rfl, hv.afterFault f, hv.2.2⟩

end Guarded

namespace Machine

variable {m : Machine}

/-- The thread `n` is at the position `q` of the program `p` and waits, or goes on behind it. -/
def GoesOn (p : Program) (q : Nat) (callers : List Suspended) (n : Nat) (m : Machine) : Prop :=
  ∃ t, m.threads[n]? = some t ∧ t.GoesOn p q callers

theorem goesOn_put {t : Thread} {w : World} (hn : n < m.threads.length)
    (ht : t.GoesOn p q callers) : (m.put n t w).GoesOn p q callers n :=
  ⟨t, put_threads_self hn t w, ht⟩

/-- An executor that has been waited for leads its thread on, if the one below goes on. -/
theorem goesOn_resumed {a : Action Unit} {cs : List Suspended} (hn : n < m.threads.length)
    (h : ∀ v t, Guarded.attempt a s = .ok v t →
      Thread.GoesOn p q callers (.running t.exec cs)) :
    (m.resumed n cs a s).GoesOn p q callers n := by
  rcases resumed_cases n cs a s with ⟨v, t, ht, hput⟩ | ⟨panic, t, -, hput⟩
  · rw [hput]
    exact goesOn_put hn (h v t ht)
  · rw [hput]
    exact goesOn_put hn trivial

/-- A thread that takes up nothing stays where it goes on. -/
theorem GoesOn.advance (h : m.GoesOn p q callers n) (hnone : ∀ i, ¬m.TakesUp o n i) :
    (m.advance o n).GoesOn p q callers n := by
  have hstep := step_advance o m n
  generalize m.advance o n = m' at hstep
  rcases h with ⟨t, ht, hgoes⟩
  have hn : n < m.threads.length := (List.getElem?_eq_some_iff.1 ht).1
  -- A turn of the executor is its last, or finds that it may start no more instructions.
  have hturn (e : Executor) (cs : List Suspended) (hthread : m.threads[n]? = some (.running e cs)) :
      (cs.length < callers.length ∨ cs = callers) ∧
        Ensures (fun _ => True) ⟨m.world, e⟩ (Guarded.turn o) fun turn t =>
          turn = .done ∨ turn = .ready ∧ t.exec.running = false := by
    cases ht.symm.trans hthread
    have hnothing := Guarded.ensures_turn_of_not_takesUp (Passive.trivially o).stable
      (s := ⟨m.world, e⟩) trivial fun i hi => hnone i ⟨e, cs, hthread, hi⟩
    refine ⟨hgoes.imp_right And.left, hnothing.imp ?_⟩
    rintro turn t (⟨rfl, -⟩ | ⟨rfl, -, u, -, rfl⟩)
    · exact .inl rfl
    · exact .inr ⟨rfl, u.exec.afterFault_running_of_limit _⟩
  cases hstep with
  | idle _ => exact ⟨t, ht, hgoes⟩
  | ready hthread hrun =>
    rcases hturn _ _ hthread with ⟨hbelow, hensures⟩
    rcases hensures.of_ok hrun with hdone | ⟨-, hhalted⟩
    · cases hdone
    · exact goesOn_put hn (hbelow.imp_right fun hcs => ⟨hcs, .inl hhalted⟩)
  | calling hthread hrun =>
    rcases (hturn _ _ hthread).2.of_ok hrun with hdone | ⟨hready, -⟩
    · cases hdone
    · cases hready
  | joining hthread hrun =>
    rcases (hturn _ _ hthread).2.of_ok hrun with hdone | ⟨hready, -⟩
    · cases hdone
    · cases hready
  | finished _ _ | panicked _ _ => exact goesOn_put hn trivial
  | @returned e c cs s hthread _ =>
    refine goesOn_resumed hn fun v u _ => .inl ?_
    rcases (hturn _ _ hthread).1 with hbelow | rfl
    · exact Nat.lt_of_succ_lt hbelow
    · exact Nat.lt_succ_self _
  | @joined e i child clock cs result hthread _ =>
    refine goesOn_resumed hn fun v u hu => .inr ?_
    cases ht.symm.trans hthread
    rcases hgoes with ⟨hcs, hp, hq⟩
    have hreceive := Guarded.ensures_receiveJoined (passive_stays o p q m.world.arrivals).stable
      (s := ⟨m.world, { e with clock := max e.clock clock }⟩) ⟨hp, hq, rfl⟩ i result
      (Q := fun t => t.exec.GoesOn p q) (fun _ hv => hv.follow) fun f _ hv => hv.afterFault f
    exact ⟨hcs, hreceive.of_ok hu⟩

theorem GoesOn.after (h : m.GoesOn p q callers n) (ev : Event)
    (hnone : ev = .turn n → ∀ i, ¬m.TakesUp o n i) : (m.after o ev).GoesOn p q callers n := by
  cases ev with
  | stop | host refusal => exact h
  | turn k =>
    by_cases hk : k = n
    · subst hk
      exact h.advance (hnone rfl)
    · rcases h with ⟨t, ht, hgoes⟩
      have hn : n < m.threads.length := (List.getElem?_eq_some_iff.1 ht).1
      exact ⟨t, (advance_threads_of_ne o (Ne.symm hk) hn).trans ht, hgoes⟩

/-- As long as a thread takes up nothing, it goes on at the same place, whatever others do. -/
theorem GoesOn.play (h : m.GoesOn p q callers n) {es : List Event}
    (hnone : ∀ x ∈ m.history o es, x.2 = .turn n → ∀ i, ¬x.1.TakesUp o n i) :
    (m.play o es).GoesOn p q callers n := by
  induction es generalizing m with
  | nil => exact h
  | cons ev es ih =>
    rcases List.forall_mem_cons.1 hnone with ⟨hfirst, hrest⟩
    exact ih (h.after ev hfirst) hrest

/-! ## Spawns -/

/-- What the turn of the thread `n` comes to in which the executor `e` gives the positions from
`first` up to `past` to a thread of its own, if its instruction leaves it in the state `t`. -/
structure Splits (o : Options) (m : Machine) (n : Nat) (e : Executor) (callers : List Suspended)
    (i : Instruction) (t : Focus) (first past : Nat) : Prop where
  ordered : first ≤ past
  -- The position is moved by as much as has been taken out in front of it.
  moves : past ≤ e.ip → past - first ≤ e.ip
  kept : t.exec.program.instructions =
    e.program.instructions.take first ++ e.program.instructions.drop past
  taken : ∃ child, (m.advance o n).threads[m.threads.length]? = some (.running child []) ∧
    child.ip = 0 ∧ child.program.instructions = (e.program.instructions.take past).drop first
  -- The position is still that of the instruction.
  place : t.exec.program.get? t.exec.ip = some i ∧ Program.origin first past t.exec.ip = e.ip
  -- What the thread takes up next, once it does so again with this executor, is the first
  -- instruction behind that has not been taken out. It is dispatched unless the hook in front of it
  -- fails.
  next : ∀ es e' j, (∀ x ∈ (m.advance o n).history o es, x.2 = .turn n → ∀ k, ¬x.1.TakesUp o n k) →
    ((m.advance o n).play o es).threads[n]? = some (.running e' callers) →
    Focus.TakesUp o ⟨((m.advance o n).play o es).world, e'⟩ j →
    (∃ k, IsLeast {k | e.ip < k ∧ ¬(first ≤ k ∧ k < past)} k ∧ e.program.get? k = some j) ∧
      ((∃ t, Focus.Dispatches o ⟨((m.advance o n).play o es).world, e'⟩ j t) ∨
        ∃ a t, Action.callHook .before j (Focus.counted ⟨((m.advance o n).play o es).world, e'⟩) =
          .error a t)

section

variable {e : Executor} {byLabel joined : Bool} {first past : Nat}

/-- A spawn that is waited for starts one thread, and its own thread waits. -/
theorem goesOn_of_joined (harrivals : s.world.arrivals = [])
    (hthread : m.threads[n]? = some (.running e callers))
    (hdispatched : Focus.Dispatches o ⟨m.world, e⟩ i s)
    (hrun : i.run o s = .ok (.join (s.exec.part first past)) (s.parted true first past)) :
    (m.advance o n).GoesOn (s.exec.without first past).program (s.exec.without first past).ip
        callers n ∧
      (m.advance o n).threads[m.threads.length]? = some (.running (s.exec.part first past) []) := by
  have hn : n < m.threads.length := (List.getElem?_eq_some_iff.1 hthread).1
  have hturn := Guarded.turn_of_join hdispatched hrun
  have hadvance : m.advance o n = m.fork n (s.exec.without first past) i (s.exec.part first past)
      callers s.world := by
    simp only [advance, hthread, hturn]
    rfl
  rcases fork_threads hn (s.exec.without first past) (s.exec.part first past) i callers s.world
    with ⟨k, hthreads⟩
  rw [harrivals] at hthreads
  refine ⟨⟨.waiting (s.exec.without first past) i k callers, ?_, rfl, rfl, rfl⟩, ?_⟩
  · rw [hadvance, hthreads, List.getElem?_append_left (by simpa using hn),
      List.getElem?_set_self hn]
  · rw [hadvance, hthreads, List.getElem?_append_right (by simp)]
    simp

/-- A spawn that is not waited for starts one thread, and its own thread goes on at once. -/
theorem goesOn_of_detached (harrivals : s.world.arrivals = [])
    (hthread : m.threads[n]? = some (.running e callers))
    (hdispatched : Focus.Dispatches o ⟨m.world, e⟩ i s)
    (hrun : i.run o s = .ok (.flow .next) (s.parted false first past)) :
    (m.advance o n).GoesOn (s.exec.without first past).program (s.exec.without first past).ip
        callers n ∧
      (m.advance o n).threads[m.threads.length]? = some (.running (s.exec.part first past) []) := by
  have hn : n < m.threads.length := (List.getElem?_eq_some_iff.1 hthread).1
  have hparted : (s.parted false first past).Stays (s.exec.without first past).program
      (s.exec.without first past).ip [s.exec.part first past] := by
    refine ⟨rfl, rfl, ?_⟩
    change s.world.arrivals ++ [_] = _
    rw [harrivals, List.nil_append]
  have hensures := Guarded.ensures_turn_of_next hdispatched hrun hparted
  have hstarted {t : Thread} {w : World} (hw : w.arrivals = [s.exec.part first past]) :
      (m.put n t w).threads[m.threads.length]? = some (.running (s.exec.part first past) []) := by
    rw [put_threads, hw, List.getElem?_append_right (by simp)]
    simp
  -- The hook at the end of the instruction may fail, or panic.
  cases hturn : Guarded.turn o ⟨m.world, e⟩ with
  | ok turn v =>
    rcases hensures.of_ok hturn with ⟨rfl, hgoes, hv⟩
    have hadvance : m.advance o n = m.put n (.running v.exec callers) v.world := by
      simp only [advance, hthread, hturn]
    rw [hadvance]
    exact ⟨goesOn_put hn (.inr ⟨rfl, hgoes⟩), hstarted hv⟩
  | error panic v =>
    have hadvance : m.advance o n = m.put n (.ended (.error panic) v.exec.clock) v.world := by
      simp only [advance, hthread, hturn]
    rw [hadvance]
    exact ⟨goesOn_put hn trivial, hstarted (hensures.of_error hturn).2.2⟩

/-- In both cases the thread goes on behind the instruction. -/
theorem goesOn_of_parted (hm : m.world.arrivals = [])
    (hthread : m.threads[n]? = some (.running e callers))
    (hdispatched : Focus.Dispatches o ⟨m.world, e⟩ i s)
    (hrun : i.run o s = .ok (s.exec.parting joined first past) (s.parted joined first past)) :
    (m.advance o n).GoesOn (s.exec.without first past).program (s.exec.without first past).ip
        callers n ∧
      (m.advance o n).threads[m.threads.length]? = some (.running (s.exec.part first past) []) := by
  have harrivals : s.world.arrivals = [] := hdispatched.stays.2.2.trans hm
  cases joined with
  | true => exact goesOn_of_joined harrivals hthread hdispatched hrun
  | false => exact goesOn_of_detached harrivals hthread hdispatched hrun

/-- Every spawn that is accepted splits the program at the positions that it has asked for. -/
theorem exists_splits {effect : Effect} (hm : m.world.arrivals = [])
    (hthread : m.threads[n]? = some (.running e callers))
    (hdispatched : Focus.Dispatches o ⟨m.world, e⟩ i s)
    (hcode : Opcode.ofCode? i.opcode = some (.spawn byLabel joined))
    (hrun : i.run o s = .ok effect t) :
    ∃ first past, i.Asks byLabel s first past ∧ m.Splits o n e callers i t first past := by
  have hspawn : i.run o s = (Opcode.spawn byLabel joined).run o i s := by
    unfold Instruction.run
    rw [hcode]
  rcases Opcode.spawn_eq_ok (hspawn.symm.trans hrun) with ⟨first, past, hgrants, rfl, rfl⟩
  rcases goesOn_of_parted hm hthread hdispatched hrun with ⟨hgoes, hchild⟩
  rcases hdispatched.stays with ⟨hprogram, hip, -⟩
  change s.exec.program = e.program at hprogram
  change s.exec.ip = e.ip at hip
  have hordered := hgrants.ordered
  have hwithin := hgrants.within
  -- The position in what is left can be traced back, and so can the one behind it.
  have horigin := Executor.origin_without hordered hgrants.outside
  have hget (k : Nat) : (s.exec.without first past).program.get? k =
      e.program.get? (Program.origin first past k) :=
    hprogram ▸ s.exec.program.get?_cut hordered hwithin k
  refine ⟨first, past, hgrants.asked, hordered, by omega, ?_, ?_, ⟨?_, ?_⟩, ?_⟩
  · exact hprogram ▸ rfl
  · exact ⟨_, hchild, rfl, hprogram ▸ rfl⟩
  · change (s.exec.without first past).program.get? (s.exec.without first past).ip = some i
    rw [hget, horigin, hip]
    exact hdispatched.instruction
  · exact horigin.trans hip
  · intro es e' j hnone hthread' hj
    rcases hgoes.play hnone with ⟨u, hu, hgoes'⟩
    cases hu.symm.trans hthread'
    -- The executor is the same one, as it stands on the same ones.
    rcases hgoes' with hbelow | ⟨-, hgoes'⟩
    · exact absurd hbelow (Nat.lt_irrefl _)
    · have hleast := Program.isLeast_origin hordered (s.exec.without first past).ip
      rw [horigin, hip] at hleast
      exact ⟨⟨_, hleast, (hget _).symm.trans (hgoes'.get?_of_takesUp hj)⟩, hj.dispatches_or_fails⟩

end

end Machine

end CellMachine
