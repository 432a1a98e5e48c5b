import CellMachine.Proofs.Machine.Callers
import CellMachine.Proofs.Machine.Station

/-!
# Stopping

This module proves what stops an executor. There is one flag for all executors. It is set by one
instruction and by the demand that all threads stop, nothing clears it, and once it is set an
executor does no more than bring the instruction to its end that it is within. An executor that
halts without the flag stops nobody else: the executors around it are as they have been, and one
that has waited for it goes on by an instruction of its own.
-/

namespace CellMachine

open Stateful

variable {o : Options} {s t : Focus} {i : Instruction} {b : Bool}

/-! ## The flag in a turn -/

theorem Opcode.code_of_stopAll : ∀ e ∈ table, e.op = .stopAll → e.code = 159 := by
  decide +kernel

theorem Opcode.ofCode?_eq_stopAll_iff {code : UInt32} :
    ofCode? code = some .stopAll ↔ code = 159 := by
  refine ⟨fun h => ?_, fun h => h ▸ rfl⟩
  rcases exists_mem_table_of_ofCode? h with ⟨e, he, hcode, hop⟩
  exact UInt32.toNat_inj.1 (hcode.symm.trans (code_of_stopAll e he hop))

/-- Most changes leave the flag alone. -/
theorem stable_stopped (o : Options) (b : Bool) : Stable o fun s => s.world.stopped = b where
  table hs _ := hs
  storage {s p t} hs _ _ := by
    unfold Focus.withStorage
    cases s.exec.usesBundle <;> exact hs
  input _ hs := hs
  sink _ hs := hs
  binds _ hs := hs
  notes _ hs := hs
  calls _ hs := hs
  output _ hs := hs
  mode _ hs := hs
  files _ hs := hs
  clock _ hs := hs

theorem Instruction.maintains_stopped (h : i.opcode ≠ 159) (hs : s.world.stopped = b) :
    Maintains (fun t => t.world.stopped = b) s (i.run o) := by
  have hatOnce {a : Action Flow} (ha : Action.Abides (fun t => t.world.stopped = b) s a) :
      Maintains (fun t => t.world.stopped = b) s (Action.atOnce a) :=
    (Steady.ensures_atOnce ha).imp fun _ _ ht => ht.1
  refine (stable_stopped o b).ensures_instruction hs i (fun _ _ ht _ => ht) ?_ ?_ ?_
  · intro op _ hedits
    cases op with
    | loadProgram => exact Opcode.ensures_loadProgram hs fun _ _ _ => hs
    | spawn byLabel joined =>
      refine Opcode.ensures_spawn hs (fun _ _ _ => hs) fun first past _ => ?_
      cases joined <;> exact hs
    | _ => exact hedits.elim
  · -- A namespace may go or cease to be the active one, but that is all.
    intro op _ hleaves
    cases op with
    | switchNamespace =>
      refine hatOnce (Steady.reading hs fun id => ensures_get ?_)
      split
      · exact ⟨hs, trivial⟩
      · exact hs
    | deleteNamespace =>
      refine hatOnce (Steady.reading hs fun _ => ensures_get (Steady.parse hs fun _ _ => ?_))
      exact ⟨hs, trivial⟩
    | pruneNamespaces => exact hatOnce ⟨hs, trivial⟩
    | _ => exact hleaves.elim
  · intro hop
    exact absurd (Opcode.ofCode?_eq_stopAll_iff.1 hop) h

namespace Guarded

/-- The turn of an executor that stops all others. -/
theorem maintains_turn_of_stopAll (h : s.Dispatches o i t) (hi : i.opcode = 159) :
    Ensures (fun u => u.world.stopped = true) s (turn o) fun _ u => u.world.stopped = true := by
  have hrun : i.run o t =
      .ok (.flow .halt) { t with world := { t.world with stopped := true } } := by
    unfold Instruction.run
    rw [Opcode.ofCode?_eq_stopAll_iff.2 hi]
    rfl
  have hstable := stable_stopped o true
  unfold Ensures
  rw [turn_of_flow h hrun]
  exact ensures_finishing hstable hstable rfl (fun _ _ _ hv => hv) (fun _ hv => hv)
    fun _ _ hv => hv

/-- Every other turn leaves the flag as it is. -/
theorem maintains_turn_stopped (hs : s.world.stopped = b)
    (h : ∀ i t, s.Dispatches o i t → i.opcode ≠ 159) :
    Maintains (fun u => u.world.stopped = b) s (turn o) := by
  have hstable := stable_stopped o b
  refine ensures_turn hstable (K := fun _ u => u.world.stopped = b) (fun _ => hstable)
    (fun _ => hs) (fun _ => ⟨hs, hs⟩) ?_ (fun _ _ _ hv => hv) (fun _ _ hv => hv)
    fun _ _ hv => hv
  intro i t hd ht
  refine (Instruction.maintains_stopped (h i t hd) ht).imp ?_
  intro effect u hu
  cases effect <;> exact hu

end Guarded

/-- The executor `p` does nothing any more, or it brings the instruction to its end that it is
within: it takes over what it has waited for, and then the instruction comes to its conclusion. -/
def Station.Finishes (p : Station) (l : List Entry) : Prop :=
  l = [] ∨ ∃ (i : Instruction) (w : Wait) (a : Action Unit) (world : World) (clock : Nat)
    (result : Except Fault Unit) (u v : Focus),
      p.within = some (i, w) ∧ w.Accepts a ∧
        a.ComesTo ⟨world, { p.exec with clock }⟩ result u ∧
          Conclusion i (result.map fun _ => .next) u l v

theorem Stage.Acts.finishes {a b : Stage} {l : List Entry} (h : a.Acts o l b)
    (hstopped : a.focus.world.stopped = true) : a.station.Finishes l ∧ b.within = none := by
  -- An executor that is within no instruction would have to take one up.
  have hfalse (hclear : a.focus.world.stopped = false) : False :=
    Bool.false_ne_true (hclear.symm.trans hstopped)
  cases h with
  | cutOff _ hclear _ => exact (hfalse hclear).elim
  | refused hi _ => exact (hfalse hi.notStopped).elim
  | finished hd _ _ => exact (hfalse hd.notStopped).elim
  | waits hd _ _ => exact (hfalse hd.notStopped).elim
  | @resumed s u v i w a clock result l ha hcomes hend =>
    exact ⟨.inr ⟨i, w, a, s.world, clock, result, u, v, rfl, ha, hcomes, hend⟩, rfl⟩

theorem Stage.Breaks.finishes {a : Stage} {l : List Entry} (h : a.Breaks o l)
    (hstopped : a.focus.world.stopped = true) : a.station.Finishes l := by
  rcases h with ⟨b, hacts⟩ | ⟨i, t, p, u, -, hd, -, -⟩
  · exact (hacts.finishes hstopped).1
  · cases hd.notStopped.symm.trans hstopped

namespace Machine

variable {m : Machine} {n k d : Nat} {p q : Station} {es : List Event} {ev : Event}

/-! ## The flag along a schedule -/

/-- The flag after a turn of a thread. When a thread takes up an instruction again, nothing can
happen to the flag. -/
theorem advance_stopped
    (hrunning : ∀ e callers, m.threads[n]? = some (.running e callers) →
      Maintains (fun t => t.world.stopped = b) ⟨m.world, e⟩ (Guarded.turn o))
    (hother : (∀ e callers, m.threads[n]? ≠ some (.running e callers)) → m.world.stopped = b) :
    (m.advance o n).world.stopped = b := by
  have hstable := stable_stopped o b
  have hresumed {callers : List Suspended} {a : Action Unit} {s : Focus}
      (ha : Maintains (fun t => t.world.stopped = b) s (Guarded.attempt a)) :
      (m.resumed n callers a s).world.stopped = b := by
    rcases resumed_cases n callers a s with ⟨v, t, ht, h⟩ | ⟨p, t, ht, h⟩
    · rw [h, put_world]
      exact ha.of_ok ht
    · rw [h, put_world]
      exact ha.of_error ht
  have hstep := step_advance o m n
  generalize m.advance o n = m' at hstep
  cases hstep with
  | idle h => exact hother h
  | ready hthread hturn | calling hthread hturn | joining hthread hturn
  | finished hthread hturn => exact (hrunning _ _ hthread).of_ok hturn
  | panicked hthread hturn => exact (hrunning _ _ hthread).of_error hturn
  | @returned e c callers s hthread hturn =>
    have hs : s.world.stopped = b := (hrunning _ _ hthread).of_ok hturn
    exact hresumed (Guarded.ensures_receive hstable
      (s := ⟨s.world, { c.exec with clock := s.exec.clock }⟩) hs _ _ _ (fun _ ht => ht)
      fun _ _ ht => ht)
  | @joined e i child clock callers result hthread _ =>
    have hs : m.world.stopped = b := hother fun e' callers' h => by cases hthread.symm.trans h
    exact hresumed (Guarded.ensures_receiveJoined hstable
      (s := ⟨m.world, { e with clock := max e.clock clock }⟩) hs _ _ (fun _ ht => ht)
      fun _ _ ht => ht)

/-- An event leads to a state with the flag set: if it has been set before, if the event is the
demand to stop, or if a thread dispatches the instruction that stops all threads. -/
theorem after_stopped_iff (o : Options) (m : Machine) (ev : Event) :
    (m.after o ev).world.stopped = true ↔ m.world.stopped = true ∨ ev = .stop ∨
      ∃ n i t, ev = .turn n ∧ m.Dispatches o n i t ∧ i.opcode = 159 := by
  cases ev with
  | stop => exact ⟨fun _ => .inr (.inl rfl), fun _ => rfl⟩
  | host refusal =>
    refine ⟨.inl, ?_⟩
    rintro (h | h | ⟨n, i, t, h, -⟩)
    · exact h
    · cases h
    · cases h
  | turn n =>
    change (m.advance o n).world.stopped = true ↔ _
    by_cases hd : ∃ i t, m.Dispatches o n i t ∧ i.opcode = 159
    · rcases hd with ⟨i, t, hd, hi⟩
      refine ⟨fun _ => .inr (.inr ⟨n, i, t, rfl, hd, hi⟩), fun _ => ?_⟩
      rcases hd with ⟨e, callers, hthread, hd⟩
      refine advance_stopped ?_ fun h => absurd hthread (h e callers)
      intro e' callers' hthread'
      cases hthread.symm.trans hthread'
      exact Guarded.maintains_turn_of_stopAll hd hi
    · have hsame : (m.advance o n).world.stopped = m.world.stopped := by
        refine advance_stopped ?_ fun _ => rfl
        intro e callers hthread
        refine Guarded.maintains_turn_stopped rfl fun i t hdispatched hi => ?_
        exact hd ⟨i, t, ⟨e, callers, hthread, hdispatched⟩, hi⟩
      rw [hsame]
      refine ⟨.inl, ?_⟩
      rintro (h | h | ⟨n', i, t, hn, hdispatched, hi⟩)
      · exact h
      · cases h
      · cases hn
        exact absurd ⟨i, t, hdispatched, hi⟩ hd

theorem play_stopped (h : m.world.stopped = true) (es : List Event) :
    (m.play o es).world.stopped = true := by
  induction es generalizing m with
  | nil => exact h
  | cons ev es ih => exact ih ((after_stopped_iff o m ev).2 (.inl h))

theorem stopped_of_mem_history (h : m.world.stopped = true) {x : Machine × Event}
    (hx : x ∈ m.history o es) : x.1.world.stopped = true := by
  induction es generalizing m with
  | nil => cases hx
  | cons ev es ih =>
    rcases List.mem_cons.1 hx with rfl | hx
    · exact h
    · exact ih ((after_stopped_iff o m ev).2 (.inl h)) hx

theorem not_takesUp_of_stopped (h : m.world.stopped = true) (n : Nat) (i : Instruction) :
    ¬m.TakesUp o n i := by
  rintro ⟨e, callers, -, hi⟩
  cases hi.notStopped.symm.trans h

/-- Once the flag is set, an executor finishes at most the instruction that it is within. -/
theorem finishes_of_stopped (hstopped : m.world.stopped = true)
    (h : m.station? n d = some p) (hstays : m.Stays o n d es) :
    p.Finishes (m.log o n d es) := by
  -- By induction on the schedule; after the instruction that it is within, none is left to finish.
  induction es generalizing m p with
  | nil => exact .inl rfl
  | cons ev es ih =>
    have hlater : (m.after o ev).Stays o n d es := (List.forall_mem_cons.1 hstays).2
    have hset := (after_stopped_iff o m ev).2 (.inl hstopped)
    have hgone (hnone : (m.after o ev).station? n d = none) :
        (m.after o ev).log o n d es = [] := by
      cases es with
      | nil => rfl
      | cons next es =>
        have hsome := (List.forall_mem_cons.1 hlater).1
        rw [hnone] at hsome
        cases hsome
    rw [log_cons]
    cases fate o h ev with
    | still hnothing hstation =>
      rw [hnothing, List.nil_append]
      exact ih hset hstation hlater
    | @acts b hacts hstation _ =>
      rcases hacts.finishes hstopped with ⟨hfinishes, hwithin⟩
      have hrest : (m.after o ev).log o n d es = [] := by
        rcases ih hset hstation hlater with hrest | ⟨i, w, a, _, _, _, _, _, hsome, -⟩
        · exact hrest
        · cases hwithin.symm.trans hsome
      rw [hrest, List.append_nil]
      exact hfinishes
    | done _ _ _ hnothing hnone _ =>
      rw [hnothing, hgone hnone]
      exact .inl rfl
    | panics _ hended hentered =>
      rw [hgone (station?_of_ended hended d), List.append_nil]
      rcases hentered with hnothing | hbreaks
      · exact .inl hnothing
      · exact hbreaks.finishes hstopped

end Machine

/-! ## An executor that has waited -/

/-- The executor has the program of `e`, stands where `e` stands, and runs if `e` runs. -/
def Focus.Stands (e : Executor) (s : Focus) : Prop :=
  s.exec.program = e.program ∧ s.exec.ip = e.ip ∧ s.exec.running = e.running

theorem passive_stands (o : Options) (e : Executor) : Passive o (Focus.Stands e) :=
  Passive.ofBare o fun e' _ =>
    e'.program = e.program ∧ e'.ip = e.ip ∧ e'.running = e.running

/-- The executor `p` comes to `q` by the end of the instruction that it is within: either it goes on
behind the instruction, or a fault of its own has halted it there. -/
def Station.Completes (p : Station) (l : List Entry) (q : Station) : Prop :=
  q.within = none ∧ q.exec.program = p.exec.program ∧
    (q.exec.ip = p.exec.ip + 1 ∧ q.exec.running = p.exec.running ∨
      q.exec.ip = p.exec.ip ∧ q.exec.running = false ∧ ∃ f t, ⟨.faults f, t⟩ ∈ l)

/-- A fault that ends an instruction completes it. -/
theorem Focus.Stands.completes {p : Station} {f : Fault} {l : List Entry} (h : s.Stands p.exec)
    (hf : ⟨.faults f, s⟩ ∈ l) : p.Completes l ⟨(s.handled f).exec, none⟩ := by
  rcases h with ⟨hprogram, hip, hrunning⟩
  change p.Completes l ⟨s.exec.marked.afterFault f, none⟩
  refine ⟨rfl, (s.exec.marked.afterFault_program f).trans hprogram, ?_⟩
  rcases s.exec.marked.afterFault_cases f with ⟨hnext, hgoes⟩ | ⟨hstays, hhalted⟩
  · refine .inl ⟨hnext.trans ?_, hgoes.trans hrunning⟩
    exact congrArg (· + 1) hip
  · exact .inr ⟨hstays.trans hip, hhalted, f, s, hf⟩

theorem Conclusion.completes {p : Station} {result : Except Fault Unit} {u v : Focus}
    {l : List Entry} (h : Conclusion i (result.map fun _ => .next) u l v) (hu : u.Stands p.exec) :
    p.Completes l ⟨v.exec, none⟩ := by
  have hhook := (passive_stands {} p.exec).maintains_callHook hu .after i
  cases result with
  | error f =>
    cases h with
    | failed => exact hu.completes List.mem_cons_self
  | ok value =>
    cases h with
    | refused hafter =>
      exact (hhook.of_error hafter).completes (List.mem_append_right _ List.mem_cons_self)
    | @ended _ _ v hafter =>
      rcases hhook.of_ok hafter with ⟨hprogram, hip, hrunning⟩
      exact ⟨rfl, hprogram, .inl ⟨congrArg (· + 1) hip, hrunning⟩⟩

/-- What an executor does that is within an instruction is to complete it. -/
theorem Stage.Acts.completes {a b : Stage} {l : List Entry} {w : Wait} (h : a.Acts o l b)
    (ha : a.within = some (i, w)) : a.station.Completes l b.station := by
  cases h with
  | cutOff _ _ _ | refused _ _ | finished _ _ _ | waits _ _ _ => cases ha
  | @resumed s u v j w' action clock result l haccepts hcomes hend =>
    have hs : Focus.Stands s.exec { s with exec.clock := clock } := ⟨rfl, rfl, rfl⟩
    have hu := hcomes.maintained (haccepts.maintains (passive_stands o s.exec).stable.toSteady hs)
    exact hend.completes (p := ⟨s.exec, some (j, w')⟩) hu

namespace Machine

variable {m : Machine} {n k d d' : Nat} {p q : Station} {es : List Event} {ev : Event}

/-! ## Halting -/

/-- In this event the executor at the height `d` of the thread `k` halts: there has been something
for it to run, and there is nothing any more. -/
def Halts (o : Options) (m : Machine) (ev : Event) (k d : Nat) : Prop :=
  ∃ p q, m.station? k d = some p ∧ p.exec.isLive = true ∧
    (m.after o ev).station? k d = some q ∧ q.exec.isLive = false

/-- Only one executor acts in an event. -/
theorem entered_of_other (h : m.entered o ev k d ≠ []) (hother : (n, d') ≠ (k, d)) :
    m.entered o ev n d' = [] := by
  rcases turn_of_entered h with ⟨rfl, hheight⟩
  refine if_neg ?_
  rintro ⟨hev, hheight'⟩
  cases hev
  exact hother (Prod.ext rfl (hheight'.symm.trans hheight))

/-- An executor halts by what it does itself. -/
theorem Halts.entered_ne_nil (h : m.Halts o ev k d) : m.entered o ev k d ≠ [] := by
  rcases h with ⟨p, q, hp, hlive, hq, hhalted⟩
  rcases still_or_acts hp hq with ⟨-, rfl⟩ | ⟨b, hacts, -, -⟩
  · cases hlive.symm.trans hhalted
  · exact hacts.ne_nil

/-- While the flag is clear, an executor that has something to do is as it has been when another
one halts. -/
theorem Halts.station?_eq (h : m.Halts o ev k d) (hclear : m.world.stopped = false)
    (hother : (n, d') ≠ (k, d)) (hp : m.station? n d' = some p)
    (hbusy : p.exec.isLive = true ∨ p.within.isSome = true) :
    (m.after o ev).station? n d' = some p := by
  have hnothing := entered_of_other h.entered_ne_nil hother
  cases fate o hp ev with
  | still _ hstation => exact hstation
  | acts hacts _ _ => exact absurd hnothing hacts.ne_nil
  | done _ hwithin hidle _ _ _ =>
    rcases hbusy with hlive | hsome
    · rcases hidle with hhalted | hstopped
      · cases hlive.symm.trans hhalted
      · cases hclear.symm.trans hstopped
    · rw [hwithin] at hsome
      cases hsome
  | panics hev hended _ =>
    -- The one that halts has its turn, and its thread has not ended.
    have hturn := (turn_of_entered h.entered_ne_nil).1
    subst hev
    cases hturn
    rcases h with ⟨-, q, -, -, hq, -⟩
    cases (station?_of_ended hended d).symm.trans hq

/-- An executor that is within an instruction stays there until it completes it. -/
theorem completes_of_within {w : Wait} (hp : m.station? n d = some p)
    (hwithin : p.within = some (i, w)) (hq : (m.after o ev).station? n d = some q) :
    q = p ∨ p.Completes (m.entered o ev n d) q := by
  rcases still_or_acts hp hq with ⟨-, hsame⟩ | ⟨b, hacts, rfl, -⟩
  · exact .inl hsame
  · exact .inr (hacts.completes hwithin)

/-! ## Other threads -/

theorem after_threads_of_ne (hev : ev ≠ .turn n) (hn : n < m.threads.length) :
    (m.after o ev).threads[n]? = m.threads[n]? := by
  cases ev with
  | stop | host refusal => rfl
  | turn k =>
    exact advance_threads_of_ne o (fun heq => hev (congrArg Event.turn heq.symm)) hn

theorem play_threads_of_notMem (hes : .turn n ∉ es) (hn : n < m.threads.length) :
    (m.play o es).threads[n]? = m.threads[n]? := by
  induction es generalizing m with
  | nil => rfl
  | cons ev es ih =>
    have hfirst := after_threads_of_ne (o := o) (List.ne_of_not_mem_cons hes).symm hn
    have hlength : n < (m.after o ev).threads.length := by
      rw [List.getElem?_eq_getElem hn] at hfirst
      exact (List.getElem?_eq_some_iff.1 hfirst).1
    exact (ih (List.not_mem_of_not_mem_cons hes) hlength).trans
      (after_threads_of_ne (List.ne_of_not_mem_cons hes).symm hn)

/-- What a thread takes up depends on the flag and on nothing else that other threads do. -/
theorem takesUp_congr {m' : Machine} (hthread : m'.threads[n]? = m.threads[n]?)
    (hflag : m'.world.stopped = m.world.stopped) (i : Instruction) :
    m'.TakesUp o n i ↔ m.TakesUp o n i := by
  unfold TakesUp
  rw [hthread]
  refine exists_congr fun e => exists_congr fun callers => and_congr_right fun _ => ?_
  refine ⟨fun h => ?_, fun h => ?_⟩
  · exact ⟨h.live, hflag.symm.trans h.notStopped, h.notExhausted, h.instruction⟩
  · exact ⟨h.live, hflag.trans h.notStopped, h.notExhausted, h.instruction⟩

theorem takesUp_play (hes : .turn n ∉ es) (hn : n < m.threads.length)
    (hclear : (m.play o es).world.stopped = false) (i : Instruction) :
    (m.play o es).TakesUp o n i ↔ m.TakesUp o n i := by
  refine takesUp_congr (play_threads_of_notMem hes hn) ?_ i
  cases hstopped : m.world.stopped with
  | false => exact hclear
  | true => exact play_stopped hstopped es

/-- The flag is final, and nothing else stops the other executors of a machine. -/
theorem stop_is_final (o : Options) (m : Machine) :
    -- It is set by the demand to stop and by the instruction 159, and never cleared.
    (∀ ev, (m.after o ev).world.stopped = true ↔ m.world.stopped = true ∨ ev = .stop ∨
      ∃ n i t, ev = .turn n ∧ m.Dispatches o n i t ∧ i.opcode = 159) ∧
    -- Once it is set, no thread takes up an instruction, and every executor finishes at most the
    -- one that it is within.
    (m.world.stopped = true → ∀ es,
      (m.play o es).world.stopped = true ∧
      (∀ x ∈ m.history o es, ∀ n i, ¬x.1.TakesUp o n i) ∧
      ∀ n d p, m.station? n d = some p → m.Stays o n d es → p.Finishes (m.log o n d es)) ∧
    -- While it is clear, an executor that halts leaves every other one as it is that has something
    -- to do.
    (m.world.stopped = false → ∀ ev k d, m.Halts o ev k d →
      ∀ n d' p, (n, d') ≠ (k, d) → m.station? n d' = some p →
        p.exec.isLive = true ∨ p.within.isSome = true →
          (m.after o ev).station? n d' = some p) ∧
    -- One that waits stays where it is until it completes its own instruction.
    (∀ ev n d p i w q, m.station? n d = some p → p.within = some (i, w) →
      (m.after o ev).station? n d = some q → q = p ∨ p.Completes (m.entered o ev n d) q) ∧
    -- A thread goes on with what it has been about to do, whatever becomes of those around it.
    ∀ es n, n < m.threads.length → .turn n ∉ es →
      (m.play o es).threads[n]? = m.threads[n]? ∧
        ((m.play o es).world.stopped = false →
          ∀ i, (m.play o es).TakesUp o n i ↔ m.TakesUp o n i) := by
  refine ⟨after_stopped_iff o m, ?_, ?_, ?_, ?_⟩
  · intro hstopped es
    refine ⟨play_stopped hstopped es, ?_, ?_⟩
    · exact fun x hx n i => not_takesUp_of_stopped (stopped_of_mem_history hstopped hx) n i
    · exact fun n d p hp hstays => finishes_of_stopped hstopped hp hstays
  · intro hclear ev k d hhalts n d' p hother hp hbusy
    exact hhalts.station?_eq hclear hother hp hbusy
  · intro ev n d p i w q hp hwithin hq
    exact completes_of_within hp hwithin hq
  · intro es n hn hes
    exact ⟨play_threads_of_notMem hes hn, takesUp_play hes hn⟩

end Machine

/-- Stop all threads. -/
def Program.stop : List Instruction := [⟨0, 159, []⟩]

namespace Machine

/-- A program that halts, and one that it has left behind on a thread of its own. -/
def orphaned : Machine where
  world := {}
  threads := [.running { program := .ofList [⟨0, 1, []⟩, ⟨1, 58, []⟩], active := 0 } [],
    .running { program := .ofList [⟨0, 58, []⟩, ⟨1, 58, []⟩], active := 0 } []]
  detached := [1]

/-- A program that is run in place stops its caller, which completes the call and takes up nothing
more. A program that halts leaves the other one to go on. -/
theorem stop_is_final_orphaned :
    let m := (inPlace Program.stop).play {} [.turn 0, .turn 0]
    (m.world.stopped = true ∧ (m.play {} [.turn 0]).world.stopped = true ∧
      ∃ p q, m.station? 0 0 = some p ∧ p.Finishes (m.log {} 0 0 [.turn 0, .turn 0]) ∧
        (m.log {} 0 0 [.turn 0, .turn 0]).length = 2 ∧
        (m.after {} (.turn 0)).station? 0 0 = some q ∧ q.exec.isLive = true ∧
        p.Completes (m.entered {} (.turn 0) 0 0) q ∧
        ∀ n i, ¬(m.after {} (.turn 0)).TakesUp {} n i) ∧
    orphaned.Halts {} (.turn 0) 0 0 ∧
    (orphaned.after {} (.turn 0)).station? 1 0 = orphaned.station? 1 0 ∧
    ((orphaned.play {} [.turn 0, .turn 0]).ending? 0).isSome = true ∧
    (orphaned.play {} [.turn 0, .turn 0]).TakesUp {} 1 ⟨0, 58, []⟩ := by
  intro m
  rcases stop_is_final {} m with ⟨-, hstop, -, hcompletes, -⟩
  rcases stop_is_final {} orphaned with ⟨-, -, hhalts, -, hothers⟩
  have hstopped : m.world.stopped = true :=
    ((stop_is_final {} ((inPlace Program.stop).play {} [.turn 0])).1 (.turn 0)).2
      (.inr (.inr ⟨0, ⟨0, 159, []⟩, _, rfl, ⟨_, _, rfl, rfl, rfl, rfl, rfl, rfl⟩, rfl⟩))
  have hstays : m.Stays {} 0 0 [.turn 0, .turn 0] := by unfold Stays; decide +kernel
  rcases hstop hstopped [.turn 0, .turn 0] with ⟨-, htakes, hfinishes⟩
  have hhalted : orphaned.Halts {} (.turn 0) 0 0 := ⟨_, _, rfl, rfl, rfl, rfl⟩
  have hother := hothers [.turn 0, .turn 0] 1 (by decide) (by decide)
  refine ⟨⟨hstopped, (hstop hstopped [.turn 0]).1, _, _, rfl, hfinishes 0 0 _ rfl hstays, ?_, rfl,
    rfl, ?_, ?_⟩, hhalted, ?_, ?_, ?_⟩
  · decide +kernel
  · rcases hcompletes (.turn 0) 0 0 _ _ _ _ rfl rfl rfl with hsame | hcompleted
    · cases congrArg (fun p : Station => p.exec.ip) hsame
    · exact hcompleted
  · exact htakes _ (List.mem_cons_of_mem _ List.mem_cons_self)
  · exact hhalts rfl (.turn 0) 0 0 hhalted 1 0 _ (by decide) rfl (.inl rfl)
  · decide +kernel
  · refine (hother.2 rfl ⟨0, 58, []⟩).2 ?_
    exact ⟨_, _, rfl, rfl, rfl, rfl, rfl⟩

end Machine

end CellMachine
