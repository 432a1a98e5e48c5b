import CellMachine.Proofs.Machine.Log

/-!
# Stations

This module follows one executor of a machine while all the others move as well. The executors of a
thread stand on top of each other, so that an executor keeps its height as long as it is there.
`Machine.log` is what the executor at a height has entered along a schedule.

`Machine.fate` says what an event can mean for an executor: nothing, a turn of its own, or its end.
From this a whole life of an executor is a run of its own turns (`Lives.runs`), in worlds that
the others have had their turns in.
-/

namespace CellMachine

open Stateful

/-- An executor of a thread, with the instruction that it is within, if it waits. -/
structure Station where
  exec : Executor
  within : Option (Instruction × Wait) := none

def Station.stage (p : Station) (w : World) : Stage := ⟨⟨w, p.exec⟩, p.within⟩

def Stage.station (a : Stage) : Station := ⟨a.focus.exec, a.within⟩

def Suspended.station (c : Suspended) : Station := ⟨c.exec, some (c.instruction, .call c.reception)⟩

def Thread.stations : Thread → List Station
  | .running e callers => ⟨e, none⟩ :: callers.map Suspended.station
  | .waiting e i _ callers => ⟨e, some (i, .join)⟩ :: callers.map Suspended.station
  | .ended .. => []

namespace Machine

variable {o : Options} {m : Machine} {n k d : Nat} {p q : Station} {ev : Event}

/-- The executor of the thread `n` below which there are `d` others. -/
def station? (m : Machine) (n d : Nat) : Option Station :=
  (m.threads[n]?).bind fun t => t.stations.reverse[d]?

/-- The height of the executor that the next turn of the thread `n` makes act, and what that one
enters. -/
def record (o : Options) (m : Machine) (n : Nat) : Nat × List Entry :=
  match m.threads[n]? with
  | some (.running e callers) =>
    match Guarded.turn o ⟨m.world, e⟩, callers with
    -- The executor on top is done, so that the one below it takes up its instruction again.
    | .ok .done s, c :: callers =>
      (callers.length,
        Logging.entries
          (Logging.attempt (Logging.resume c.instruction (c.reception.accept s.exec.outcome)))
          ⟨s.world, { c.exec with clock := s.exec.clock }⟩)
    | _, _ => (callers.length, Logging.entries (Logging.turn o) ⟨m.world, e⟩)
  | some (.waiting e i child callers) =>
    match m.ending? child with
    | some (result, clock) =>
      (callers.length,
        Logging.entries (Logging.attempt (Logging.resume i (Action.acceptJoined result)))
          ⟨m.world, { e with clock := max e.clock clock }⟩)
    | none => (callers.length, [])
  | _ => (0, [])

/-- What the executor at a height of the thread `n` enters in an event. -/
def entered (o : Options) (m : Machine) (ev : Event) (n d : Nat) : List Entry :=
  if ev = .turn n ∧ (m.record o n).1 = d then (m.record o n).2 else []

def log (o : Options) (m : Machine) (n d : Nat) (es : List Event) : List Entry :=
  (m.history o es).flatMap fun x => x.1.entered o x.2 n d

/-- What becomes of the executor at a height in an event. -/
inductive Fate (o : Options) (m : Machine) (ev : Event) (n d : Nat) (p : Station) : Prop where
  -- It does nothing.
  | still : m.entered o ev n d = [] → (m.after o ev).station? n d = some p → Fate o m ev n d p
  | acts {b : Stage} : (p.stage m.world).Acts o (m.entered o ev n d) b →
      (m.after o ev).station? n d = some b.station →
      (m.after o ev).world = { b.focus.world with arrivals := [] } → Fate o m ev n d p
  -- It is done, and not there any more.
  | done : ev = .turn n → p.within = none → (p.exec.isLive = false ∨ m.world.stopped = true) →
      m.entered o ev n d = [] → (m.after o ev).station? n d = none →
      (d = 0 → (m.after o ev).ending? n = some (.ok p.exec.outcome, p.exec.clock)) →
      Fate o m ev n d p
  -- Its thread ends in a panic.
  | panics {panic : Panic} {clock : Nat} : ev = .turn n →
      (m.after o ev).ending? n = some (.error panic, clock) →
      (m.entered o ev n d = [] ∨ (p.stage m.world).Breaks o (m.entered o ev n d)) →
      Fate o m ev n d p

/-! ## Heights -/

theorem station?_of_thread {t : Thread} (h : m.threads[n]? = some t) (d : Nat) :
    m.station? n d = t.stations.reverse[d]? := by
  rw [station?, h, Option.bind_some]

theorem station?_of_ended {result : Except Panic Outcome} {clock : Nat}
    (h : m.ending? n = some (result, clock)) (d : Nat) : m.station? n d = none := by
  unfold ending? at h
  split at h
  · rename_i hthread
    rw [station?_of_thread hthread]
    rfl
  · cases h

/-- Of the stations of a thread, those that are above and below one of them. -/
theorem getElem?_reverse_parts {α : Type} (above below : List α) (x : α) (d : Nat) :
    (above ++ x :: below).reverse[d]? =
      if d < below.length then below.reverse[d]?
      else if d = below.length then some x else above.reverse[d - below.length - 1]? := by
  have hparts : (above ++ x :: below).reverse = below.reverse ++ x :: above.reverse := by simp
  rw [hparts]
  split
  · rename_i hd
    exact List.getElem?_append_left (by simpa using hd)
  · rename_i hd
    rw [List.getElem?_append_right (by simpa using hd), List.length_reverse]
    split
    · rename_i heq
      rw [heq, Nat.sub_self]
      rfl
    · rename_i hne
      obtain ⟨k, hk⟩ : ∃ k, d - below.length = k + 1 := ⟨d - below.length - 1, by omega⟩
      rw [hk]
      rfl

theorem entered_self (o : Options) (m : Machine) (n : Nat) :
    m.entered o (.turn n) n (m.record o n).1 = (m.record o n).2 :=
  if_pos ⟨rfl, rfl⟩

theorem entered_of_height_ne (h : (m.record o n).1 ≠ d) (ev : Event) :
    m.entered o ev n d = [] :=
  if_neg fun hev => h hev.2

theorem entered_of_event_ne (h : ev ≠ .turn n) (d : Nat) : m.entered o ev n d = [] :=
  if_neg fun hev => h hev.1

theorem turn_of_entered (h : m.entered o ev k d ≠ []) :
    ev = .turn k ∧ (m.record o k).1 = d := by
  by_contra hother
  exact h (if_neg hother)

/-! ## The fate of an executor -/

/-- In a turn of the thread the executor `x` acts. It is on top afterwards, unless it has called
another one; and it has been on top before, unless the one above it is done. -/
theorem fate_of_acts (above above' : List Station) {below : List Station} {x : Station} {b : Stage}
    {t t' : Thread} (ht : m.threads[n]? = some t) (hstations : t.stations = above ++ x :: below)
    (ht' : (m.advance o n).threads[n]? = some t')
    (hstations' : t'.stations = above' ++ b.station :: below)
    (habove : above ≠ [] → above' = [])
    (hdone : ∀ y ∈ above, y.within = none ∧ (y.exec.isLive = false ∨ m.world.stopped = true))
    (hheight : (m.record o n).1 = below.length)
    (hacts : (x.stage m.world).Acts o (m.record o n).2 b)
    (hworld : (m.advance o n).world = { b.focus.world with arrivals := [] })
    (h : m.station? n d = some p) : m.Fate o (.turn n) n d p := by
  have hafter : ((m.after o (.turn n)).station? n d) =
      (above' ++ b.station :: below).reverse[d]? := by
    rw [← hstations']
    exact station?_of_thread ht' d
  rw [station?_of_thread ht, hstations, getElem?_reverse_parts] at h
  rw [getElem?_reverse_parts] at hafter
  rcases Nat.lt_trichotomy d below.length with hd | rfl | hd
  · -- An executor below has waited and goes on waiting.
    have hne : (m.record o n).1 ≠ d := by omega
    rw [if_pos hd] at h hafter
    exact .still (entered_of_height_ne hne _) (hafter.trans h)
  · rw [if_neg (Nat.lt_irrefl _), if_pos rfl] at h hafter
    cases h
    have hentered := entered_self o m n
    rw [hheight] at hentered
    exact .acts (hentered.symm ▸ hacts) hafter hworld
  · -- An executor above is the one that is done.
    have hne : (m.record o n).1 ≠ d := by omega
    have hbeyond : ¬d < below.length := Nat.not_lt_of_lt hd
    have hother : d ≠ below.length := Nat.ne_of_gt hd
    rw [if_neg hbeyond, if_neg hother] at h hafter
    have hp : p ∈ above := List.mem_reverse.1 (List.mem_of_getElem? h)
    rcases hdone p hp with ⟨hwithin, hidle⟩
    rw [habove (List.ne_nil_of_mem hp)] at hafter
    exact .done rfl hwithin hidle (entered_of_height_ne hne _) hafter fun hzero => by omega

/-- In a turn of the thread the executor `x` acts, and a panic ends the thread. -/
theorem fate_of_panic (above : List Station) {below : List Station} {x : Station} {t : Thread}
    {panic : Panic} {clock : Nat} (ht : m.threads[n]? = some t)
    (hstations : t.stations = above ++ x :: below)
    (hended : (m.advance o n).ending? n = some (.error panic, clock))
    (hheight : (m.record o n).1 = below.length)
    (hbreaks : (x.stage m.world).Breaks o (m.record o n).2)
    (h : m.station? n d = some p) : m.Fate o (.turn n) n d p := by
  by_cases hd : (m.record o n).1 = d
  · subst hd
    rw [station?_of_thread ht, hstations, getElem?_reverse_parts, hheight,
      if_neg (Nat.lt_irrefl _), if_pos rfl] at h
    cases h
    exact .panics rfl hended (.inr ((entered_self o m n).symm ▸ hbreaks))
  · exact .panics rfl hended (.inl (entered_of_height_ne hd _))

theorem ending?_put (hn : n < m.threads.length) (result : Except Panic Outcome) (clock : Nat)
    (w : World) : (m.put n (.ended result clock) w).ending? n = some (result, clock) := by
  rw [ending?, put_threads_self hn]

/-- In a turn of the thread the executor `x` takes up its instruction again. -/
theorem fate_of_resumed (above : List Station) (clock : Nat) {callers : List Suspended}
    {e : Executor} {i : Instruction} {w : Wait} {a : Action Unit} {b : Action Unit} {t : Thread}
    (ht : m.threads[n]? = some t)
    (hstations : t.stations = above ++ ⟨e, some (i, w)⟩ :: callers.map Suspended.station)
    (hdone : ∀ y ∈ above, y.within = none ∧ (y.exec.isLive = false ∨ m.world.stopped = true))
    (ha : w.Accepts a) (hb : Logging.Erases (Logging.resume i a) b)
    (hadvance : m.advance o n = m.resumed n callers b ⟨m.world, { e with clock }⟩)
    (hrecord : m.record o n = (callers.length,
      Logging.entries (Logging.attempt (Logging.resume i a)) ⟨m.world, { e with clock }⟩))
    (h : m.station? n d = some p) : m.Fate o (.turn n) n d p := by
  have hn : n < m.threads.length := (List.getElem?_eq_some_iff.1 ht).1
  have hresume := Logging.ensures_resume o ha ⟨m.world, e⟩ i clock
  have hheight : (m.record o n).1 = (callers.map Suspended.station).length := by
    rw [hrecord, List.length_map]
  rcases resumed_cases n callers b ⟨m.world, { e with clock }⟩ with
    ⟨v, s, hs, hresumed⟩ | ⟨panic, s, hs, hresumed⟩
  · -- What is entered comes with the result of the turn, since the log does not change that.
    have hacts : Stage.Acts o ⟨⟨m.world, e⟩, some (i, w)⟩ (m.record o n).2 ⟨s, none⟩ := by
      rw [hrecord]
      exact hresume.of_ok (hb.attempt.eq_ok hs)
    have hthread : (m.advance o n).threads[n]? = some (.running s.exec callers) := by
      rw [hadvance, hresumed]
      exact put_threads_self hn _ _
    have hworld : (m.advance o n).world = { s.world with arrivals := [] } := by
      rw [hadvance, hresumed, put_world]
    exact fate_of_acts above [] (b := ⟨s, none⟩) ht hstations hthread rfl (fun _ => rfl)
      hdone hheight hacts hworld h
  · have hbreaks : Stage.Breaks o ⟨⟨m.world, e⟩, some (i, w)⟩ (m.record o n).2 := by
      rw [hrecord]
      exact hresume.of_error (hb.attempt.eq_error hs)
    have hended : (m.advance o n).ending? n = some (.error panic, s.exec.clock) := by
      rw [hadvance, hresumed]
      exact ending?_put hn _ _ _
    exact fate_of_panic above ht hstations hended hheight hbreaks h

/-- The executor on top of a thread has a turn that leaves it there. -/
theorem fate_of_turn (above' : List Station) {callers : List Suspended} {e : Executor} {s : Focus}
    {turn : Turn} {within : Option (Instruction × Wait)} {t' : Thread}
    (ht : m.threads[n]? = some (.running e callers))
    (hrun : Guarded.turn o ⟨m.world, e⟩ = .ok turn s) (hready : turn ≠ .done)
    (hleaves : ∀ l, turn.Leaves o ⟨m.world, e⟩ ⟨s, l⟩ →
      Stage.Acts o ⟨⟨m.world, e⟩, none⟩ l ⟨s, within⟩)
    (ht' : (m.advance o n).threads[n]? = some t')
    (hstations' : t'.stations = above' ++ ⟨s.exec, within⟩ :: callers.map Suspended.station)
    (hworld : (m.advance o n).world = { s.world with arrivals := [] })
    (h : m.station? n d = some p) : m.Fate o (.turn n) n d p := by
  have hrecord : m.record o n =
      (callers.length, Logging.entries (Logging.turn o) ⟨m.world, e⟩) := by
    cases turn with
    | done => exact absurd rfl hready
    | _ => simp only [record, ht, hrun]
  have hheight : (m.record o n).1 = (callers.map Suspended.station).length := by
    rw [hrecord, List.length_map]
  have hacts : Stage.Acts o ⟨⟨m.world, e⟩, none⟩ (m.record o n).2 ⟨s, within⟩ := by
    rw [hrecord]
    exact hleaves _ (Logging.leaves_of_turn hrun)
  exact fate_of_acts [] above' (b := ⟨s, within⟩) ht rfl ht' hstations'
    (fun hne => absurd rfl hne) (fun y hy => absurd hy List.not_mem_nil) hheight hacts hworld h

/-- The executor on top of a thread is done: it gives way to the one below, or the thread ends. -/
theorem fate_of_done {e : Executor} {callers : List Suspended}
    (ht : m.threads[n]? = some (.running e callers))
    (hrun : Guarded.turn o ⟨m.world, e⟩ = .ok .done ⟨m.world, e⟩)
    (h : m.station? n d = some p) : m.Fate o (.turn n) n d p := by
  have hidle := Logging.leaves_of_turn hrun
  cases callers with
  | cons c callers =>
    refine fate_of_resumed [⟨e, none⟩] e.clock ht rfl ?_ (w := .call c.reception)
      ⟨e.outcome, rfl⟩ (Logging.erases_receive c.instruction c.reception e.outcome) ?_ ?_ h
    · intro y hy
      cases List.mem_singleton.1 hy
      exact ⟨rfl, hidle.1⟩
    · simp only [advance, ht, hrun]
    · simp only [record, ht, hrun]
  | nil =>
    have hn : n < m.threads.length := (List.getElem?_eq_some_iff.1 ht).1
    have hadvance : m.advance o n = m.put n (.ended (.ok e.outcome) e.clock) m.world := by
      simp only [advance, ht, hrun]
    have hended : (m.after o (.turn n)).ending? n = some (.ok e.outcome, e.clock) := by
      change (m.advance o n).ending? n = _
      rw [hadvance]
      exact ending?_put hn _ _ _
    have hnothing : (m.record o n).2 = [] := by
      have hentries : Logging.entries (Logging.turn o) ⟨m.world, e⟩ = [] :=
        congrArg Logged.log hidle.2
      simp only [record, ht, hrun, hentries]
    rw [station?_of_thread ht] at h
    have hp : p = ⟨e, none⟩ := List.mem_singleton.1 (List.mem_of_getElem? h)
    subst hp
    refine .done rfl rfl hidle.1 ?_ (station?_of_ended hended d) fun _ => hended
    unfold entered
    rw [hnothing, ite_self]

theorem fate_of_running {e : Executor} {callers : List Suspended}
    (ht : m.threads[n]? = some (.running e callers)) (h : m.station? n d = some p) :
    m.Fate o (.turn n) n d p := by
  have hn : n < m.threads.length := (List.getElem?_eq_some_iff.1 ht).1
  cases hrun : Guarded.turn o ⟨m.world, e⟩ with
  | error panic s =>
    have hrecord : m.record o n =
        (callers.length, Logging.entries (Logging.turn o) ⟨m.world, e⟩) := by
      simp only [record, ht, hrun]
    have hbreaks : Stage.Breaks o ⟨⟨m.world, e⟩, none⟩ (m.record o n).2 := by
      rw [hrecord]
      exact Logging.breaks_of_turn hrun
    have hended : (m.advance o n).ending? n = some (.error panic, s.exec.clock) := by
      simp only [advance, ht, hrun]
      exact ending?_put hn _ _ _
    exact fate_of_panic [] ht rfl hended (by rw [hrecord, List.length_map]) hbreaks h
  | ok turn s =>
    cases turn with
    | ready =>
      have hadvance : m.advance o n = m.put n (.running s.exec callers) s.world := by
        simp only [advance, ht, hrun]
      have hthread : (m.advance o n).threads[n]? = some (.running s.exec callers) := by
        rw [hadvance]
        exact put_threads_self hn _ _
      refine fate_of_turn [] ht hrun (by simp) (fun l hl => hl) hthread rfl ?_ h
      rw [hadvance, put_world]
    | calling i callee r =>
      have hadvance : m.advance o n =
          m.put n (.running callee (⟨s.exec, i, r⟩ :: callers)) s.world := by
        simp only [advance, ht, hrun]
      have hthread : (m.advance o n).threads[n]? =
          some (.running callee (⟨s.exec, i, r⟩ :: callers)) := by
        rw [hadvance]
        exact put_threads_self hn _ _
      refine fate_of_turn [⟨callee, none⟩] ht hrun (by simp) (fun l hl => hl) hthread rfl
        ?_ h
      rw [hadvance, put_world]
    | joining i child =>
      have hadvance : m.advance o n = m.fork n s.exec i child callers s.world := by
        simp only [advance, ht, hrun]
        rfl
      have hfork := fork_threads_self hn s.exec child i callers s.world
      refine fate_of_turn [] ht hrun (by simp) (fun l hl => hl) (hadvance ▸ hfork) rfl ?_ h
      rw [hadvance]
      rfl
    | done =>
      cases Guarded.eq_of_turn_done hrun
      exact fate_of_done ht hrun h

theorem fate_turn (h : m.station? n d = some p) : m.Fate o (.turn n) n d p := by
  cases hthread : m.threads[n]? with
  | none =>
    rw [station?, hthread] at h
    cases h
  | some thread =>
    have hn : n < m.threads.length := (List.getElem?_eq_some_iff.1 hthread).1
    cases thread with
    | ended result clock =>
      rw [station?_of_thread hthread] at h
      cases h
    | waiting e i child callers =>
      cases hending : m.ending? child with
      | none =>
        -- The thread waits on.
        have hidle : m.after o (.turn n) = m := by
          change m.advance o n = m
          simp only [advance, hthread, hending]
        have hnothing : (m.record o n).2 = [] := by simp only [record, hthread, hending]
        refine .still ?_ (hidle.symm ▸ h)
        unfold entered
        rw [hnothing, ite_self]
      | some ending =>
        rcases ending with ⟨result, clock⟩
        refine fate_of_resumed [] (max e.clock clock) hthread rfl ?_ (w := .join) ⟨result, rfl⟩
          (Logging.erases_receiveJoined i result) ?_ ?_ h
        · exact fun y hy => absurd hy List.not_mem_nil
        · simp only [advance, hthread, hending]
        · simp only [record, hthread, hending]
    | running e callers => exact fate_of_running hthread h

/-- What an event can mean for an executor. -/
theorem fate (o : Options) (h : m.station? n d = some p) (ev : Event) : m.Fate o ev n d p := by
  by_cases hev : ev = .turn n
  · subst hev
    exact fate_turn h
  · -- Another thread moves, or all are told to stop.
    refine .still (entered_of_event_ne hev d) ?_
    cases ev with
    | stop | host refusal => exact h
    | turn k =>
      rcases Option.bind_eq_some_iff.1 h with ⟨t, ht, hp⟩
      have hn : n < m.threads.length := (List.getElem?_eq_some_iff.1 ht).1
      have hkn : n ≠ k := fun heq => hev (congrArg Event.turn heq.symm)
      have hsame : (m.advance o k).threads[n]? = some t :=
        (advance_threads_of_ne o hkn hn).trans ht
      exact (station?_of_thread hsame d).trans hp

/-- An executor that is there after the event has done nothing, or it has acted. -/
theorem still_or_acts (hp : m.station? n d = some p) (hq : (m.after o ev).station? n d = some q) :
    m.entered o ev n d = [] ∧ q = p ∨
      ∃ b, (p.stage m.world).Acts o (m.entered o ev n d) b ∧ q = b.station ∧
        (m.after o ev).world = { b.focus.world with arrivals := [] } := by
  cases fate o hp ev with
  | still hnothing hstation =>
    cases hstation.symm.trans hq
    exact .inl ⟨hnothing, rfl⟩
  | acts hacts hstation hworld =>
    cases hstation.symm.trans hq
    exact .inr ⟨_, hacts, rfl, hworld⟩
  | done _ _ _ _ hgone _ => cases hgone.symm.trans hq
  | panics _ hended _ => cases (station?_of_ended hended d).symm.trans hq

/-! ## Lives -/

theorem history_concat (es : List Event) (ev : Event) :
    m.history o (es ++ [ev]) = m.history o es ++ [(m.play o es, ev)] := by
  induction es generalizing m with
  | nil => rfl
  | cons first es ih => exact congrArg ((m, first) :: ·) ih

theorem log_cons (ev : Event) (es : List Event) (n d : Nat) :
    m.log o n d (ev :: es) = m.entered o ev n d ++ (m.after o ev).log o n d es :=
  List.flatMap_cons

theorem log_concat (es : List Event) (ev : Event) (n d : Nat) :
    m.log o n d (es ++ [ev]) = m.log o n d es ++ (m.play o es).entered o ev n d := by
  rw [log, history_concat, List.flatMap_append, List.flatMap_singleton]
  rfl

theorem play_concat (es : List Event) (ev : Event) :
    m.play o (es ++ [ev]) = (m.play o es).after o ev :=
  play_append es [ev]

/-- The executor is there before every event of the schedule. -/
def Stays (o : Options) (m : Machine) (n d : Nat) (es : List Event) : Prop :=
  ∀ x ∈ m.history o es, (x.1.station? n d).isSome = true

/-- The executor at the height `d` of the thread `n` is `p` at first and `p'` after the schedule,
and there all along. -/
structure Lives (o : Options) (m : Machine) (n d : Nat) (p : Station) (es : List Event)
    (p' : Station) : Prop where
  start : m.station? n d = some p
  stays : m.Stays o n d es
  last : (m.play o es).station? n d = some p'

end Machine

/-- The executor `p` comes to `p'` by turns of its own, each in some world, and enters all this. -/
inductive Station.Runs (o : Options) (p : Station) : List Entry → Station → Prop where
  | start : Runs o p [] p
  | acts {l l' : List Entry} {q : Station} {w : World} {b : Stage} : Runs o p l q →
      (q.stage w).Acts o l' b → Runs o p (l ++ l') b.station

namespace Machine

variable {o : Options} {m : Machine} {n d : Nat} {p p' : Station} {es : List Event} {ev : Event}

theorem stays_concat : m.Stays o n d (es ++ [ev]) ↔
    m.Stays o n d es ∧ ((m.play o es).station? n d).isSome = true := by
  unfold Stays
  rw [history_concat, List.forall_mem_append]
  simp

theorem Stays.exists_lives (h : m.station? n d = some p) (hstays : m.Stays o n d (es ++ [ev])) :
    ∃ q, m.Lives o n d p es q := by
  rcases stays_concat.1 hstays with ⟨hstays, hsome⟩
  rcases Option.isSome_iff_exists.1 hsome with ⟨q, hq⟩
  exact ⟨q, h, hstays, hq⟩

/-- A life goes on if the executor is still there after the next event. -/
theorem Lives.exists_lives (h : m.Lives o n d p (es ++ [ev]) p') : ∃ q, m.Lives o n d p es q :=
  h.stays.exists_lives h.start

/-- A life is a run of turns. -/
theorem Lives.runs (h : m.Lives o n d p es p') : p.Runs o (m.log o n d es) p' := by
  -- The induction is on the end of the schedule, since it is there that a run grows.
  induction es using List.reverseRecOn generalizing p' with
  | nil =>
    cases h.start.symm.trans h.last
    exact .start
  | append_singleton es ev ih =>
    rcases h.exists_lives with ⟨q, hq⟩
    have hruns := ih hq
    have hlast := h.last
    rw [log_concat]
    rw [play_concat] at hlast
    rcases still_or_acts hq.last hlast with ⟨hnothing, rfl⟩ | ⟨b, hacts, rfl, -⟩
    · rwa [hnothing, List.append_nil]
    · exact .acts hruns hacts

end Machine

end CellMachine
