import CellMachine.Proofs.Machine.Schedule
import CellMachine.Proofs.Machine.Spawn

/-!
# Budgets

This module proves what a limit of instructions means for a thread. The limit is one for every
executor, and an executor that is run in place starts at nothing; so what a thread may do in all
depends on how deep its executors stand on each other. A thread on which they are at most `d` deep
starts no more than `n + n ^ 2 + … + n ^ d` instructions, and a run that is not deeper than that
comes to an end. There is no such bound, and there may be no end, if the depth is not bounded.
-/

namespace CellMachine

open Stateful

variable {o : Options} {m : Machine} {n k N d : Nat} {i : Instruction} {s : Focus}

/-! ## Counts -/

/-- No executor that is to have a thread has started anything. -/
def World.Fresh (w : World) : Prop := ∀ e ∈ w.arrivals, e.steps = 0

/-- The executor has started so many instructions, and the ones that are to have threads none. -/
def Focus.Counts (steps : Nat) (s : Focus) : Prop := s.exec.steps = steps ∧ s.world.Fresh

theorem passive_counts (o : Options) (steps : Nat) : Passive o (Focus.Counts steps) :=
  Passive.ofFixed o fun x => x.steps = steps ∧ ∀ e ∈ x.arrivals, e.steps = 0

/-- What an instruction leaves behind of an executor that has started `steps` instructions. An
executor that it starts has started none. -/
def Effect.Counts (steps : Nat) (effect : Effect) (t : Focus) : Prop :=
  t.Counts steps ∧
    match effect with
    | .flow _ => True
    | .call callee _ => callee.steps = 0
    | .join child => child.steps = 0

theorem Instruction.ensures_counts (i : Instruction) (hs : s.Counts n) :
    Ensures (Focus.Counts n) s (i.run o) (Effect.Counts n) := by
  refine (passive_counts o n).ensures_instruction hs i ?_ ?_ ?_
  · intro effect t ht hplain
    cases effect with
    | flow f => exact ⟨ht, trivial⟩
    | call callee r =>
      rcases hplain with ⟨is, active, rfl⟩
      exact ⟨ht, rfl⟩
    | join child => exact hplain.elim
  · intro byLabel joined _
    refine Opcode.ensures_spawn hs (fun _ _ _ => hs) fun first past _ => ?_
    cases joined with
    | true => exact ⟨hs, rfl⟩
    | false =>
      exact ⟨⟨hs.1, List.forall_mem_append.2 ⟨hs.2, List.forall_mem_singleton.2 rfl⟩⟩, trivial⟩
  · intro _
    exact Opcode.ensures_loadProgram hs fun _ _ _ => ⟨hs, trivial⟩

theorem Focus.Counts.follow (h : s.Counts n) (f : Flow) :
    Focus.Counts n { s with exec := s.exec.follow f } := by
  cases f <;> exact h

theorem Focus.Counts.afterFault (h : s.Counts n) (f : Fault) :
    Focus.Counts n { s with exec := s.exec.afterFault f } :=
  ⟨(s.exec.afterFault_steps f).trans h.1, h.2⟩

/-- The executor is at an instruction and within the limit. -/
def Executor.MayStart (o : Options) (e : Executor) : Prop :=
  e.isLive = true ∧ e.isExhausted o = false

theorem Focus.TakesUp.mayStart (h : s.TakesUp o i) : s.exec.MayStart o := ⟨h.live, h.notExhausted⟩

theorem Focus.mayStart_of_starts (h : s.starts o = true) : s.exec.MayStart o := by
  rcases Focus.exists_takesUp_of_starts h with ⟨i, hi⟩
  exact hi.mayStart

/-- An executor that a turn has started has started nothing itself. -/
def Turn.Fresh : Turn → Prop
  | .calling _ callee _ => callee.steps = 0
  | .joining _ child => child.steps = 0
  | .ready | .done => True

/-- What a turn of the executor `e` comes to, which leaves it as `e'` and may start an
instruction. -/
inductive Turn.Counts (o : Options) (e e' : Executor) : (starts : Bool) → Turn → Prop where
  | started {turn : Turn} : e.MayStart o → e'.steps = e.steps + 1 → turn ≠ .done → turn.Fresh →
    Counts o e e' true turn
  | halted : e.running = true → e'.running = false → e'.steps = e.steps →
    Counts o e e' false .ready
  | done : Counts o e e' false .done

theorem Guarded.ensures_counts_of_takesUp (hs : s.world.Fresh) (h : s.TakesUp o i) :
    Ensures (fun t => t.world.Fresh) s (turn o) fun turn t =>
      t.Counts (s.exec.steps + 1) ∧ turn ≠ .done ∧ turn.Fresh := by
  have hcounts := (passive_counts o (s.exec.steps + 1)).stable
  have hturn : Ensures (Focus.Counts (s.exec.steps + 1)) s (turn o) fun turn t =>
      t.Counts (s.exec.steps + 1) ∧ turn ≠ .done ∧ turn.Fresh := by
    refine ensures_turn_of_takesUp hcounts (K := fun _ => Focus.Counts (s.exec.steps + 1))
      (fun _ => hcounts) h ⟨rfl, hs⟩ ?_ (fun _ _ _ ht => ht) ?_ ?_
    · intro t _ ht
      refine (i.ensures_counts ht).imp fun effect u hu => ?_
      cases effect with
      | flow f => exact hu.1
      | call callee r => exact ⟨hu.1, Turn.noConfusion, hu.2⟩
      | join child => exact ⟨hu.1, Turn.noConfusion, hu.2⟩
    · exact fun f t ht => ⟨ht.follow f, Turn.noConfusion, trivial⟩
    · exact fun f t ht => ⟨ht.afterFault f, Turn.noConfusion, trivial⟩
  exact hturn.mono (fun _ ht => ht.2) fun _ _ ht => ht

/-- A turn starts an instruction if it takes one up, and nothing otherwise. -/
theorem Guarded.ensures_counts (hs : s.world.Fresh) :
    Ensures (fun t => t.world.Fresh) s (turn o) fun turn t =>
      t.world.Fresh ∧ turn.Counts o s.exec t.exec (s.starts o) := by
  cases hstarts : s.starts o with
  | true =>
    rcases Focus.exists_takesUp_of_starts hstarts with ⟨i, hi⟩
    refine (ensures_counts_of_takesUp hs hi).imp fun turn t ht => ?_
    exact ⟨ht.1.2, .started hi.mayStart ht.1.1 ht.2.1 ht.2.2⟩
  | false =>
    have hnone (i : Instruction) : ¬s.TakesUp o i := fun hi => by simp [hi.starts] at hstarts
    have hturn := ensures_turn_of_not_takesUp (passive_counts o s.exec.steps).stable ⟨rfl, hs⟩ hnone
    refine hturn.mono (fun _ ht => ht.2) ?_
    rintro turn t (⟨rfl, rfl⟩ | ⟨rfl, hlive, u, hu, rfl⟩)
    · exact ⟨hs, .done⟩
    · have hrunning : s.exec.running = true := (Bool.and_eq_true _ _ ▸ hlive).1
      exact ⟨hu.2, .halted hrunning (u.exec.afterFault_running_of_limit _) (hu.afterFault _).1⟩

/-! ## Moves -/

/-- The thread waits for another one. -/
def Thread.Waits : Thread → Prop
  | .waiting .. => True
  | _ => False

/-- What a turn of a thread makes of it, which may start an instruction. -/
inductive Thread.Moves (o : Options) : (starts : Bool) → Thread → Thread → Prop where
  | idle {t : Thread} : (∀ e callers, t ≠ .running e callers) → Moves o false t t
  | started {e e' : Executor} {callers : List Suspended} : e.MayStart o →
    e'.steps = e.steps + 1 → Moves o true (.running e callers) (.running e' callers)
  | called {e e' callee : Executor} {callers : List Suspended} {i : Instruction} {r : Reception} :
    e.MayStart o → e'.steps = e.steps + 1 → callee.steps = 0 →
      Moves o true (.running e callers) (.running callee (⟨e', i, r⟩ :: callers))
  | spawned {e e' : Executor} {callers : List Suspended} {i : Instruction} {child : Nat} :
    e.MayStart o → e'.steps = e.steps + 1 →
      Moves o true (.running e callers) (.waiting e' i child callers)
  | panicked {e : Executor} {callers : List Suspended} {p : Panic} {clock : Nat} :
    e.MayStart o → Moves o true (.running e callers) (.ended (.error p) clock)
  | halted {e e' : Executor} {callers : List Suspended} : e.running = true → e'.running = false →
    e'.steps = e.steps → Moves o false (.running e callers) (.running e' callers)
  | returned {e e' : Executor} {c : Suspended} {callers : List Suspended} :
    e'.steps = c.exec.steps → Moves o false (.running e (c :: callers)) (.running e' callers)
  | joined {e e' : Executor} {i : Instruction} {child : Nat} {callers : List Suspended} :
    e'.steps = e.steps → Moves o false (.waiting e i child callers) (.running e' callers)
  | ended {t : Thread} {result : Except Panic Outcome} {clock : Nat} :
    Moves o false t (.ended result clock)

namespace Turn.Counts

variable {b : Bool} {e e' callee child : Executor} {callers : List Suspended} {r : Reception}

theorem moves_ready (h : Turn.ready.Counts o e e' b) :
    Thread.Moves o b (.running e callers) (.running e' callers) := by
  cases h with
  | started hmay hsteps _ _ => exact .started hmay hsteps
  | halted hrunning hhalted hsteps => exact .halted hrunning hhalted hsteps

theorem moves_calling (h : (Turn.calling i callee r).Counts o e e' b) :
    Thread.Moves o b (.running e callers) (.running callee (⟨e', i, r⟩ :: callers)) := by
  cases h with
  | started hmay hsteps _ hcallee => exact .called hmay hsteps hcallee

theorem moves_joining (h : (Turn.joining i child).Counts o e e' b) (k : Nat) :
    Thread.Moves o b (.running e callers) (.waiting e' i k callers) := by
  cases h with
  | started hmay hsteps _ _ => exact .spawned hmay hsteps

theorem fresh (h : (Turn.joining i child).Counts o e e' b) : child.steps = 0 := by
  cases h with
  | started _ _ _ hchild => exact hchild

theorem eq_false (h : Turn.done.Counts o e e' b) : b = false := by
  cases h with
  | started _ _ hne _ => exact absurd rfl hne
  | done => rfl

end Turn.Counts

namespace Machine

/-- In `m'` the thread `t`, which has the number `n` in `m`, has moved, and threads have been
started whose executors have started nothing. If the thread waits, it has waited before or for one
of these. -/
def Moved (o : Options) (m : Machine) (n : Nat) (t : Thread) (m' : Machine) : Prop :=
  ∃ (t' : Thread) (started : List Executor),
    m'.threads = m.threads.set n t' ++ started.map (fun e => .running e []) ∧
      (∀ e ∈ started, e.steps = 0) ∧ t.Moves o (m.starts o n) t' ∧
      (t'.Waits → t' = t ∨ started ≠ [])

variable {t t' : Thread}

theorem moved_put {w : World} (hw : w.Fresh) (hwaits : ¬t'.Waits)
    (h : t.Moves o (m.starts o n) t') : m.Moved o n t (m.put n t' w) :=
  ⟨t', w.arrivals, rfl, hw, h, fun hwaits' => absurd hwaits' hwaits⟩

/-- An instruction that is taken up again is not started by that. -/
theorem moved_resumed {a : Action Unit} {callers : List Suspended}
    (hstarts : m.starts o n = false)
    (ha : Ensures (Focus.Counts k) s (Guarded.attempt a) fun _ => Focus.Counts k)
    (hmoves : ∀ e, e.steps = k → t.Moves o false (.running e callers)) :
    m.Moved o n t (m.resumed n callers a s) := by
  rcases resumed_cases (m := m) n callers a s with ⟨v, u, hu, h⟩ | ⟨p, u, hu, h⟩
  · rw [h]
    rcases ha.of_ok hu with ⟨hsteps, hw⟩
    exact moved_put hw not_false (hstarts ▸ hmoves _ hsteps)
  · rw [h]
    exact moved_put (ha.of_error hu).2 not_false (hstarts ▸ .ended)

theorem moved_advance (hm : m.world.Fresh) (ht : m.threads[n]? = some t) :
    m.Moved o n t (m.advance o n) := by
  have hn : n < m.threads.length := (List.getElem?_eq_some_iff.1 ht).1
  have hstep := step_advance o m n
  generalize m.advance o n = m' at hstep
  -- What a turn of the executor on top comes to.
  have hturn {e : Executor} {callers : List Suspended}
      (hthread : m.threads[n]? = some (.running e callers)) :
      t = .running e callers ∧
        Ensures (fun t => t.world.Fresh) ⟨m.world, e⟩ (Guarded.turn o) fun turn t =>
          t.world.Fresh ∧ turn.Counts o e t.exec (m.starts o n) := by
    rw [starts_of_running hthread]
    exact ⟨Option.some.inj (ht.symm.trans hthread), Guarded.ensures_counts hm⟩
  cases hstep with
  | idle hidle =>
    have hne (e : Executor) (callers : List Suspended) : t ≠ .running e callers := by
      rintro rfl
      exact hidle e callers ht
    have hstarts : m.starts o n = false := by
      cases t with
      | running e callers => exact absurd rfl (hne e callers)
      | _ => rw [starts, ht]
    refine ⟨t, [], ?_, List.forall_mem_nil _, hstarts ▸ .idle hne, fun _ => .inl rfl⟩
    rcases List.getElem?_eq_some_iff.1 ht with ⟨_, rfl⟩
    rw [List.map_nil, List.append_nil, List.set_getElem_self]
  | ready hthread hrun =>
    rcases hturn hthread with ⟨rfl, hensures⟩
    rcases hensures.of_ok hrun with ⟨hw, hcounts⟩
    exact moved_put hw not_false hcounts.moves_ready
  | calling hthread hrun =>
    rcases hturn hthread with ⟨rfl, hensures⟩
    rcases hensures.of_ok hrun with ⟨hw, hcounts⟩
    exact moved_put hw not_false hcounts.moves_calling
  | joining hthread hrun =>
    rcases hturn hthread with ⟨rfl, hensures⟩
    rcases hensures.of_ok hrun with ⟨hw, hcounts⟩
    rcases fork_threads hn _ _ _ _ _ with ⟨k, hfork⟩
    have hstarted := List.forall_mem_append.2 ⟨hw, List.forall_mem_singleton.2 hcounts.fresh⟩
    exact ⟨_, _, hfork, hstarted, hcounts.moves_joining k,
      fun _ => .inr (List.append_ne_nil_of_right_ne_nil _ (List.cons_ne_nil _ _))⟩
  | finished hthread hrun =>
    rcases hturn hthread with ⟨rfl, hensures⟩
    rcases hensures.of_ok hrun with ⟨hw, hcounts⟩
    exact moved_put hw not_false (hcounts.eq_false ▸ .ended)
  | panicked hthread hrun =>
    rcases hturn hthread with ⟨rfl, hensures⟩
    refine moved_put (hensures.of_error hrun) not_false ?_
    -- Whether an instruction has been started does not show in what a panic leaves.
    cases hstarts : m.starts o n with
    | true => exact .panicked (Focus.mayStart_of_starts (starts_of_running hthread ▸ hstarts))
    | false => exact .ended
  | @returned e c callers s hthread hrun =>
    rcases hturn hthread with ⟨rfl, hensures⟩
    rcases hensures.of_ok hrun with ⟨hw, hcounts⟩
    refine moved_resumed (k := c.exec.steps) hcounts.eq_false ?_ fun e' he' => .returned he'
    exact Guarded.ensures_receive (passive_counts o c.exec.steps).stable
      (s := ⟨s.world, { c.exec with clock := s.exec.clock }⟩) ⟨rfl, hw⟩ _ _ _
      (fun t ht => ht.follow .next) fun f t ht => ht.afterFault f
  | @joined e i child clock callers result hthread _ =>
    cases ht.symm.trans hthread
    have hstarts : m.starts o n = false := by rw [starts, hthread]
    refine moved_resumed (k := e.steps) hstarts ?_ fun e' he' => .joined he'
    exact Guarded.ensures_receiveJoined (passive_counts o e.steps).stable
      (s := ⟨m.world, { e with clock := max e.clock clock }⟩) ⟨rfl, hm⟩ _ _
      (fun t ht => ht.follow .next) fun f t ht => ht.afterFault f

end Machine

/-! ## What is left -/

/-- How many instructions are within a limit of `n` for every executor, if executors stand at most
`d` deep: `n + n ^ 2 + … + n ^ d`. -/
def budget (n : Nat) : (d : Nat) → Nat
  | 0 => 0
  | d + 1 => n * (1 + budget n d)

/-- How many instructions executors on top of each other may still start, each together with those
that it may run in place. -/
def Executor.remaining (N d : Nat) : List Executor → Nat
  | [] => 0
  | e :: below => (N - e.steps) * (1 + budget N (d - below.length)) + remaining N d below

/-- How many instructions may still be started on a thread. -/
def Thread.remaining (N d : Nat) (t : Thread) : Nat := Executor.remaining N d t.executors

/-- An upper bound for the turns in which a thread starts nothing, as long as it has no more
executors. -/
def Thread.slack : Thread → Nat
  -- An executor may be halted in one turn, and is done in another.
  | .running e callers => (if e.running then 2 else 1) + 2 * callers.length
  | .waiting _ _ _ callers => 2 + 2 * callers.length
  | .ended .. => 0

/-- An executor that takes up an instruction has one less to start. -/
theorem Executor.sub_succ_steps {e : Executor} (hlimit : o.limit = some N)
    (h : e.MayStart o) : N - e.steps = N - (e.steps + 1) + 1 := by
  have hexhausted := h.2
  rw [isExhausted, hlimit] at hexhausted
  have hsteps : ¬N ≤ e.steps := of_decide_eq_false hexhausted
  omega

namespace Thread.Moves

variable {b : Bool} {t t' : Thread}

/-- Starting an instruction takes it off what is left. -/
theorem remaining_add_le (h : t.Moves o b t') (hlimit : o.limit = some N) (hd : t'.depth ≤ d) :
    t'.remaining N d + b.toNat ≤ t.remaining N d := by
  -- The instruction that is started accounts for itself and for what is run in place by it.
  have hstart {e : Executor} (callers : List Suspended) (he : e.MayStart o) :
      (N - (e.steps + 1)) * (1 + budget N (d - callers.length)) +
          (1 + budget N (d - callers.length)) =
        (N - e.steps) * (1 + budget N (d - callers.length)) := by
    rw [Executor.sub_succ_steps hlimit he, Nat.succ_mul]
  cases h with
  | idle _ => exact Nat.le_refl _
  | @started e e' callers he hsteps | @spawned e e' callers i child he hsteps =>
    have hstart := hstart callers he
    simp only [Thread.remaining, executors, Executor.remaining, List.length_map, hsteps,
      Bool.toNat_true]
    omega
  | @called e e' callee callers i r he hsteps hcallee =>
    have hdeeper : d - callers.length = d - (callers.length + 1) + 1 := by
      have hd : callers.length + 1 ≤ d := hd
      omega
    -- The callee has everything left that executors may start from its depth on.
    have hbudget : N * (1 + budget N (d - (callers.length + 1))) =
        budget N (d - callers.length) := by
      rw [hdeeper, budget]
    refine Nat.le_of_eq ?_
    calc
      (Thread.running callee (⟨e', i, r⟩ :: callers)).remaining N d + true.toNat
          = N * (1 + budget N (d - (callers.length + 1))) +
              ((N - (e.steps + 1)) * (1 + budget N (d - callers.length)) +
                Executor.remaining N d (callers.map (·.exec))) + 1 := by
            simp only [Thread.remaining, executors, Executor.remaining, List.map_cons,
              List.length_cons, List.length_map, hsteps, hcallee, Nat.sub_zero, Bool.toNat_true]
      _ = (N - (e.steps + 1)) * (1 + budget N (d - callers.length)) +
            (1 + budget N (d - callers.length)) +
              Executor.remaining N d (callers.map (·.exec)) := by
            rw [hbudget]
            omega
      _ = (N - e.steps) * (1 + budget N (d - callers.length)) +
            Executor.remaining N d (callers.map (·.exec)) := by
            rw [hstart callers he]
      _ = (Thread.running e callers).remaining N d := by
            rw [Thread.remaining, executors, Executor.remaining, List.length_map]
  | @panicked e callers p clock he =>
    have hstart := hstart callers he
    simp only [Thread.remaining, executors, Executor.remaining, List.length_map, Bool.toNat_true]
    omega
  | halted _ _ hsteps | joined hsteps =>
    simp only [Thread.remaining, executors, Executor.remaining, hsteps, Bool.toNat_false]
    exact Nat.le_refl _
  | returned hsteps =>
    simp only [Thread.remaining, executors, Executor.remaining, List.map_cons, hsteps,
      Bool.toNat_false]
    omega
  | ended => exact Nat.zero_le _

/-- No executor gets beyond the limit. -/
theorem steps_le (h : t.Moves o b t') (hlimit : o.limit = some N)
    (ht : ∀ e ∈ t.executors, e.steps ≤ N) : ∀ e ∈ t'.executors, e.steps ≤ N := by
  have hstart {e e' : Executor} (he : e.MayStart o) (hsteps : e'.steps = e.steps + 1) :
      e'.steps ≤ N := by
    have hless := Executor.sub_succ_steps hlimit he
    omega
  cases h with
  | idle _ => exact ht
  | started he hsteps | spawned he hsteps =>
    exact List.forall_mem_cons.2 ⟨hstart he hsteps, (List.forall_mem_cons.1 ht).2⟩
  | called he hsteps hcallee =>
    refine List.forall_mem_cons.2 ⟨hcallee ▸ Nat.zero_le N, ?_⟩
    exact List.forall_mem_cons.2 ⟨hstart he hsteps, (List.forall_mem_cons.1 ht).2⟩
  | halted _ _ hsteps | joined hsteps =>
    rcases List.forall_mem_cons.1 ht with ⟨he, hbelow⟩
    exact List.forall_mem_cons.2 ⟨hsteps ▸ he, hbelow⟩
  | returned hsteps =>
    rcases List.forall_mem_cons.1 (List.forall_mem_cons.1 ht).2 with ⟨hc, hbelow⟩
    exact List.forall_mem_cons.2 ⟨hsteps ▸ hc, hbelow⟩
  | panicked _ | ended => exact List.forall_mem_nil _

/-- A turn that starts nothing uses up slack. -/
theorem slack_lt {e : Executor} {callers : List Suspended}
    (h : Moves o b (.running e callers) t') :
    t'.slack < (Thread.running e callers).slack + 3 * b.toNat := by
  have hslack (e : Executor) :
      1 ≤ (if e.running then 2 else 1) ∧ (if e.running then 2 else 1) ≤ 2 := by
    split <;> decide
  have htop := hslack e
  generalize ht : Thread.running e callers = t at h
  cases h with
  | idle hidle => exact absurd ht.symm (hidle e callers)
  | @started e₀ e' callers₀ he hsteps =>
    cases ht
    have htop' := hslack e'
    simp only [slack, Bool.toNat_true]
    omega
  | @called e₀ e' callee callers₀ i r he hsteps hcallee =>
    cases ht
    have hcallee' := hslack callee
    have hrunning : e.running = true := (Bool.and_eq_true _ _ ▸ he.1).1
    simp only [slack, hrunning, if_true, Bool.toNat_true, List.length_cons]
    omega
  | spawned _ _ | panicked _ =>
    cases ht
    simp only [slack, Bool.toNat_true]
    omega
  | halted hrunning hhalted _ =>
    cases ht
    simp [slack, hrunning, hhalted]
  | @returned e₀ e' c callers₀ hsteps =>
    cases ht
    have htop' := hslack e'
    simp only [slack, Bool.toNat_false, List.length_cons]
    omega
  | joined _ => cases ht
  | ended =>
    subst ht
    simp only [slack, Bool.toNat_false]
    omega

end Thread.Moves

namespace Machine

/-- How many instructions may still be started on the thread `n`, if its executors stand at most
`d + 1` deep. One that has not started has everything left. -/
def remaining (N d : Nat) (m : Machine) (n : Nat) : Nat :=
  (m.threads[n]?).elim (budget N (d + 1)) (Thread.remaining N d)

/-- How many instructions are started on the thread `n` in a schedule. -/
def taken (o : Options) (m : Machine) (n : Nat) (es : List Event) : Nat :=
  (m.history o es).countP fun x => x.2 == .turn n && x.1.starts o n

theorem world_fresh (hm : m.world.arrivals = []) : m.world.Fresh := by
  intro e he
  rw [hm] at he
  cases he

/-- A turn of the thread `n` takes what it starts off what is left for it, and leaves the other
threads as much as they have had. -/
theorem remaining_advance (hlimit : o.limit = some N) (hm : m.world.arrivals = [])
    (hd : (m.advance o n).depth k ≤ d) :
    (m.advance o n).remaining N d k + (k == n && m.starts o n).toNat ≤ m.remaining N d k := by
  cases ht : m.threads[n]? with
  | none =>
    have hidle : m.advance o n = m := by simp only [advance, ht]
    have hstarts : m.starts o n = false := by rw [starts, ht]
    rw [hidle, hstarts, Bool.and_false]
    exact Nat.le_refl _
  | some t =>
    have hn : n < m.threads.length := (List.getElem?_eq_some_iff.1 ht).1
    rcases moved_advance (o := o) (world_fresh hm) ht
      with ⟨t', started, hthreads, hfresh, hmoves, -⟩
    by_cases hkn : k = n
    · subst hkn
      have ht' : (m.advance o k).threads[k]? = some t' := by
        rw [hthreads, List.getElem?_append_left (by simpa using hn), List.getElem?_set_self hn]
      rw [depth, ht'] at hd
      rw [remaining, remaining, ht, ht', beq_self_eq_true, Bool.true_and]
      exact hmoves.remaining_add_le hlimit hd
    · rw [beq_eq_false_iff_ne.2 hkn, Bool.false_and]
      rcases Nat.lt_or_ge k m.threads.length with hk | hk
      · rw [remaining, advance_threads_of_ne o hkn hk]
        exact Nat.le_refl _
      · -- A thread that has been started has everything left.
        have habsent : m.threads[k]? = none := List.getElem?_eq_none_iff.2 hk
        have hlength : (m.threads.set n t').length ≤ k := by simpa using hk
        rw [remaining, remaining, habsent, hthreads, List.getElem?_append_right hlength,
          List.getElem?_map]
        cases he : started[k - (m.threads.set n t').length]? with
        | none => exact Nat.le_refl _
        | some e =>
          have hsteps : e.steps = 0 := hfresh e (List.mem_of_getElem? he)
          simp [Thread.remaining, Thread.executors, Executor.remaining, hsteps, budget]

theorem remaining_after (hlimit : o.limit = some N) (hm : m.world.arrivals = []) (ev : Event)
    (hd : (m.after o ev).depth n ≤ d) :
    (m.after o ev).remaining N d n + (ev == .turn n && m.starts o n).toNat ≤
      m.remaining N d n := by
  cases ev with
  | stop | host refusal => exact Nat.le_refl _
  | turn k =>
    by_cases hkn : k = n
    · subst hkn
      have hadvance := remaining_advance (k := k) hlimit hm hd
      rwa [beq_self_eq_true, Bool.true_and] at hadvance ⊢
    · have hne : (Event.turn k == Event.turn n) = false := by simpa using hkn
      have hadvance := remaining_advance (k := n) hlimit hm hd
      rw [hne]
      exact Nat.le_trans (Nat.le_add_right _ _) hadvance

/-- What is started on a thread comes off what is left for it. -/
theorem remaining_play (hlimit : o.limit = some N) (hm : m.world.arrivals = []) {es : List Event}
    (hd : ∀ x ∈ m.history o es, (x.1.after o x.2).depth n ≤ d) :
    (m.play o es).remaining N d n + m.taken o n es ≤ m.remaining N d n := by
  induction es generalizing m with
  | nil => exact Nat.le_refl _
  | cons ev es ih =>
    rcases List.forall_mem_cons.1 hd with ⟨hfirst, hrest⟩
    have hafter := remaining_after hlimit hm ev hfirst
    have hplay := ih (after_arrivals hm ev) hrest
    have htaken : m.taken o n (ev :: es) =
        (m.after o ev).taken o n es + (ev == .turn n && m.starts o n).toNat := by
      rw [taken, history, List.countP_cons]
      cases ev == .turn n && m.starts o n <;> rfl
    rw [htaken]
    change ((m.after o ev).play o es).remaining N d n + _ ≤ _
    omega

/-- No executor gets beyond the limit, in whatever order threads move. -/
theorem steps_le_play (hlimit : o.limit = some N) (hm : m.world.arrivals = [])
    (hsteps : ∀ t ∈ m.threads, ∀ e ∈ t.executors, e.steps ≤ N) (es : List Event) :
    ∀ t ∈ (m.play o es).threads, ∀ e ∈ t.executors, e.steps ≤ N := by
  induction es generalizing m with
  | nil => exact hsteps
  | cons ev es ih =>
    refine ih (after_arrivals hm ev) ?_
    cases ev with
    | stop | host refusal => exact hsteps
    | turn n =>
      change ∀ t ∈ (m.advance o n).threads, _
      cases ht : m.threads[n]? with
      | none =>
        have hidle : m.advance o n = m := by simp only [advance, ht]
        rwa [hidle]
      | some t =>
        rcases moved_advance (o := o) (world_fresh hm) ht
          with ⟨t', started, hthreads, hfresh, hmoves, -⟩
        rw [hthreads]
        refine List.forall_mem_append.2 ⟨fun u hu => ?_, fun u hu => ?_⟩
        · rcases List.mem_or_eq_of_mem_set hu with hu | rfl
          · exact hsteps u hu
          · exact hmoves.steps_le hlimit (hsteps t (List.mem_of_getElem? ht))
        · rcases List.mem_map.1 hu with ⟨e, he, rfl⟩
          exact List.forall_mem_singleton.2 (hfresh e he ▸ Nat.zero_le N)

/-! ## Ends -/

/-- The first thread goes on alone, with at most `d` executors that wait on it. -/
def StaysAlone (o : Options) (m : Machine) (d k : Nat) : Prop :=
  (m.turns o k).threads.length = 1 ∧ (m.turns o k).depth 0 ≤ d

/-- A thread that goes on alone comes to its end when what is left for it is used up. -/
theorem ended_of_remaining (hlimit : o.limit = some N) (hm : m.world.arrivals = []) {t : Thread}
    (ht : m.threads = [t]) (hwaits : ¬t.Waits) {fuel : Nat}
    (hfuel : 3 * m.remaining N d 0 + t.slack ≤ fuel)
    (halone : ∀ k, k ≤ fuel → m.StaysAlone o d k) :
    ∃ result clock, (m.runUntil mainEnded o fuel).threads = [.ended result clock] := by
  -- Every turn takes from three times what is left together with the slack.
  induction fuel generalizing m t with
  | zero =>
    cases t with
    | running e callers =>
      simp only [Thread.slack] at hfuel
      split at hfuel <;> omega
    | waiting e i child callers => exact absurd trivial hwaits
    | ended result clock => exact ⟨result, clock, ht⟩
  | succ fuel ih =>
    cases t with
    | waiting e i child callers => exact absurd trivial hwaits
    | ended result clock =>
      rw [runUntil_of_done (mainEnded_of_ended ht)]
      exact ⟨result, clock, ht⟩
    | running e callers =>
      rw [runUntil_succ_of_running ht]
      have hthread : m.threads[0]? = some (.running e callers) := by rw [ht]; rfl
      have hnext := halone 1 (Nat.succ_le_succ (Nat.zero_le _))
      rcases moved_advance (o := o) (world_fresh hm) hthread
        with ⟨t', started, hthreads, -, hmoves, hwaits'⟩
      have hone : (m.advance o 0).threads.length = 1 := hnext.1
      have hnone : started = [] := by
        rw [hthreads, ht] at hone
        simpa using hone
      have ht' : (m.advance o 0).threads = [t'] := by rw [hthreads, ht, hnone]; rfl
      have hrun : ¬t'.Waits := by
        intro h
        rcases hwaits' h with rfl | hstarted
        · exact hwaits h
        · exact hstarted hnone
      have hremaining := remaining_advance (n := 0) (k := 0) (d := d) hlimit hm hnext.2
      rw [beq_self_eq_true, Bool.true_and] at hremaining
      have hslack := hmoves.slack_lt
      exact ih (after_arrivals hm (.turn 0)) ht' hrun (by omega)
        fun k hk => halone (k + 1) (Nat.succ_le_succ hk)

/-- A limit of `n` is one for every executor. On a thread whose executors stand at most `d + 1` deep
there are at most `n + n ^ 2 + … + n ^ (d + 1)` instructions within it; and a program that starts no
threads and runs others in place no deeper than that comes to its end. -/
theorem taken_le_budget (hlimit : o.limit = some N) (world : World) (p : Program) (active : UInt32)
    (d : Nat) :
    let m := Machine.start o { world with arrivals := [] } p active
    (∀ es, ∀ t ∈ (m.play o es).threads, ∀ e ∈ t.executors, e.steps ≤ N) ∧
    (∀ n es, (∀ x ∈ m.history o es, (x.1.after o x.2).depth n ≤ d) →
        m.taken o n es ≤ budget N (d + 1)) ∧
      ∀ fuel stop, 3 * budget N (d + 1) + 2 ≤ fuel → (∀ k, k ≤ fuel → m.StaysAlone o d k) →
        (Execution.ofMachine o fuel stop m).isSome := by
  intro m
  have hremaining (n : Nat) : m.remaining N d n = budget N (d + 1) := by
    cases n with
    | zero => simp [m, start, remaining, Thread.remaining, Thread.executors, Executor.remaining,
        budget]
    | succ n => rfl
  refine ⟨steps_le_play hlimit rfl ?_, ?_, ?_⟩
  · exact List.forall_mem_singleton.2 (List.forall_mem_singleton.2 (Nat.zero_le N))
  · intro n es hdepth
    have hplay := remaining_play (n := n) hlimit (m := m) rfl hdepth
    rw [hremaining] at hplay
    omega
  · intro fuel stop hfuel halone
    have hbound : 3 * m.remaining N d 0 + 2 ≤ fuel := by rwa [hremaining]
    rcases ended_of_remaining hlimit (m := m) rfl rfl not_false hbound halone
      with ⟨result, clock, hended⟩
    rw [ofMachine_of_ended hended]
    rfl

end Machine

/-- Store a program that does nothing, and run it in place. -/
def Program.nested : List Instruction :=
  [⟨0, 2, [Instruction.encode ⟨0, 58, []⟩, [0, 0, 0, 0]]⟩, ⟨1, 111, [[0, 0, 0, 0]]⟩]

theorem Machine.taken_le_budget_nested :
    let m := Machine.start { limit := some 2 } {} (.ofList Program.nested)
    m.taken { limit := some 2 } 0 (List.replicate 5 (.turn 0)) = 3 ∧ 3 ≤ budget 2 2 ∧
      (Execution.ofMachine { limit := some 2 } 20 false m).isSome := by
  intro m
  have hbudget := Machine.taken_le_budget (o := { limit := some 2 }) rfl {} (.ofList Program.nested)
    0 1
  have hdepth : ∀ x ∈ m.history { limit := some 2 } (List.replicate 5 (.turn 0)),
      (x.1.after { limit := some 2 } x.2).depth 0 ≤ 1 := by
    decide +kernel
  have halone : ∀ k, k ≤ 20 → m.StaysAlone { limit := some 2 } 1 k := by
    unfold Machine.StaysAlone
    decide +kernel
  have htaken : m.taken { limit := some 2 } 0 (List.replicate 5 (.turn 0)) = 3 := by
    decide +kernel
  exact ⟨htaken, htaken ▸ hbudget.2.1 0 _ hdepth, hbudget.2.2 20 false (by decide) halone⟩

/-! ## Recursion -/

/-- Store the program itself, and run it in place. -/
def Program.recursive : List Instruction := [⟨0, 49, [[0, 0, 0, 0]]⟩, ⟨1, 111, [[0, 0, 0, 0]]⟩]

def World.recursive : World where
  table := .insert Table.initial 0
    { memory := .insert OrderedMap.empty 0 (Instruction.encodeAll Program.recursive) }

namespace Machine

/-- A thread that is about to run the program on top of others. -/
def recursive (w : World) (callers : List Suspended) : Machine where
  world := w
  threads := [.running { program := .ofList Program.recursive, active := 0 } callers]

theorem recursive_calls {w : World} (hw : w = {} ∨ w = World.recursive)
    (callers : List Suspended) : ∃ e c,
      ((recursive w callers).advance { limit := some 2 } 0).threads = [.running e callers] ∧
        ((recursive w callers).advance { limit := some 2 } 0).advance { limit := some 2 } 0 =
          recursive World.recursive (c :: callers) := by
  rcases hw with rfl | rfl
  · exact ⟨_, _, rfl, rfl⟩
  · exact ⟨_, _, rfl, rfl⟩

/-- The thread never comes to its end: every executor runs another one in place. -/
theorem recursive_endless {w : World} (hw : w = {} ∨ w = World.recursive)
    (callers : List Suspended) (fuel : Nat) :
    ∃ e cs, ((recursive w callers).runUntil mainEnded { limit := some 2 } fuel).threads =
      [.running e cs] := by
  -- Each executor stores the program in one turn and runs it in the next.
  induction fuel using Nat.twoStepInduction generalizing w callers with
  | zero => exact ⟨_, _, rfl⟩
  | one =>
    rcases recursive_calls hw callers with ⟨e, c, hfirst, -⟩
    rw [runUntil_succ_of_running rfl]
    exact ⟨e, callers, hfirst⟩
  | more fuel ih _ =>
    rcases recursive_calls hw callers with ⟨e, c, hfirst, hsecond⟩
    rw [runUntil_succ_of_running rfl, runUntil_succ_of_running hfirst, hsecond]
    exact ih (.inr rfl) _

/-- With a limit of two, this program starts six instructions on its thread in six turns, and goes
on like that. -/
theorem taken_recursive :
    let m := Machine.start { limit := some 2 } {} (.ofList Program.recursive)
    m.taken { limit := some 2 } 0 (List.replicate 6 (.turn 0)) = 6 ∧
      ∀ fuel stop, Execution.ofMachine { limit := some 2 } fuel stop m = none := by
  intro m
  refine ⟨by decide +kernel, fun fuel stop => ?_⟩
  rcases recursive_endless (.inl rfl) [] fuel with ⟨e, cs, hthreads⟩
  have hending : (m.runUntil mainEnded { limit := some 2 } fuel).ending? 0 = none := by
    change ((recursive {} []).runUntil mainEnded { limit := some 2 } fuel).ending? 0 = none
    rw [ending?, hthreads]
    rfl
  simp only [Execution.ofMachine, hending]

end Machine

end CellMachine
