import CellMachine.Proofs.Machine.Station

/-!
# Hooks around instructions

This module proves that the hooks of the extension that is bound stand around every instruction like
brackets. The log of an executor is a row of such brackets, one for each instruction that it has
taken up, and behind them what it has entered about the instruction that it is within. Each hook is
called on the handler that is bound to the active namespace at that moment, so that another handler
may close a bracket than the one that has opened it, or none at all.
-/

namespace CellMachine

open Stateful

variable {o : Options} {s t u v : Focus} {i : Instruction} {f : Fault} {x : Entry}
  {l l' opened : List Entry} {a b : Stage} {p q : Station}

/-- What is entered about one instruction, from the hook in front of it to the one behind it, or
about the limit in place of an instruction. -/
inductive Bracket (o : Options) : List Entry → Prop
  -- The limit is reached.
  | cutOff {s : Focus} : s.exec.isLive = true → s.exec.isExhausted o = true →
      Bracket o [⟨.faults (.instructionLimitExceeded (o.limit.getD 0)), s⟩]
  -- The hook in front of the instruction fails, and that is all.
  | refused {s t : Focus} {i : Instruction} {f : Fault} : s.TakesUp o i →
      Action.callHook .before i s.counted = .error (.fault f) t →
      Bracket o (⟨.begins i, s⟩ :: s.counted.calls .before i ++ [⟨.faults f, t⟩])
  -- The instruction is dispatched and over.
  | finished {s t u v : Focus} {i : Instruction} {result : Except Fault Flow} {l : List Entry} :
      s.Dispatches o i t → (i.run o).ComesTo t (result.map .flow) u → Conclusion i result u l v →
      Bracket o
        (⟨.begins i, s⟩ :: s.counted.calls .before i ++ ⟨.dispatches i, t⟩ :: t.routes i ++ l)
  -- The instruction is dispatched, and over when it has waited.
  | resumed {s t u u' v : Focus} {i : Instruction} {effect : Effect} {w : Wait} {a : Action Unit}
      {world : World} {clock : Nat} {result : Except Fault Unit} {l : List Entry} :
      s.Dispatches o i t → i.run o t = .ok effect u → effect.wait? = some w → w.Accepts a →
      a.ComesTo ⟨world, { u.exec with clock }⟩ result u' →
      Conclusion i (result.map fun _ => .next) u' l v →
      Bracket o
        (⟨.begins i, s⟩ :: s.counted.calls .before i ++ ⟨.dispatches i, t⟩ :: t.routes i ++ l)

/-- What an executor has entered about the instruction that it is within, if it is. -/
inductive Station.Opened (o : Options) : Station → List Entry → Prop
  | none {e : Executor} : Opened o ⟨e, none⟩ []
  | within {s t u : Focus} {i : Instruction} {effect : Effect} {w : Wait} : s.Dispatches o i t →
      i.run o t = .ok effect u → effect.wait? = some w →
      Opened o ⟨u.exec, some (i, w)⟩ (s.opening i t)

/-- What has been entered: whole brackets, and behind them what has been opened. -/
def Bracketed (o : Options) (l opened : List Entry) : Prop :=
  ∃ rounds : List (List Entry), l = rounds.flatten ++ opened ∧ ∀ r ∈ rounds, Bracket o r

theorem Bracketed.close (h : Bracketed o l opened) (hl : Bracket o (opened ++ l')) :
    Bracketed o (l ++ l') [] := by
  rcases h with ⟨rounds, rfl, hrounds⟩
  refine ⟨rounds ++ [opened ++ l'], by simp, ?_⟩
  exact List.forall_mem_append.2 ⟨hrounds, List.forall_mem_singleton.2 hl⟩

theorem Bracketed.open (h : Bracketed o l []) (l' : List Entry) : Bracketed o (l ++ l') l' := by
  rcases h with ⟨rounds, rfl, hrounds⟩
  exact ⟨rounds, by simp, hrounds⟩

theorem Station.Opened.eq_nil_or (h : q.Opened o opened) :
    opened = [] ∨ ∃ (s : Focus) (i : Instruction) (t : Focus),
      s.Dispatches o i t ∧ opened = s.opening i t := by
  cases h with
  | none => exact .inl rfl
  | within hd _ _ => exact .inr ⟨_, _, _, hd, rfl⟩

theorem Station.Opened.eq_nil (h : q.Opened o opened) (hq : q.within = .none) : opened = [] := by
  cases h with
  | none => rfl
  | within _ _ _ => cases hq

/-- A turn opens a bracket, or it closes one, or it does both. -/
theorem Stage.Acts.bracketed {w : World} (h : (q.stage w).Acts o l' b) (hq : q.Opened o opened)
    (hl : Bracketed o l opened) :
    ∃ opened', Bracketed o (l ++ l') opened' ∧ b.station.Opened o opened' := by
  rcases q with ⟨e, within⟩
  generalize hs : Station.stage ⟨e, within⟩ w = a at h
  cases h with
  | cutOff hlive _ hexhausted =>
    cases hs
    cases hq
    exact ⟨[], hl.close (.cutOff hlive hexhausted), .none⟩
  | refused hi hbefore =>
    cases hs
    cases hq
    exact ⟨[], hl.close (.refused hi hbefore), .none⟩
  | finished hd hcomes hend =>
    cases hs
    cases hq
    exact ⟨[], hl.close (.finished hd hcomes hend), .none⟩
  | waits hd hrun hwait =>
    cases hs
    cases hq
    exact ⟨_, hl.open _, .within hd hrun hwait⟩
  | resumed haccepts hcomes hend =>
    -- The instruction that it has waited within is the one that is open.
    cases hs
    cases hq with
    | within hd hrun hwait =>
      exact ⟨[], hl.close (.resumed hd hrun hwait haccepts hcomes hend), .none⟩

/-- So does a turn that ends in a panic, unless that leaves the bracket open. -/
theorem Stage.Breaks.bracketed {w : World} (h : (q.stage w).Breaks o l') (hq : q.Opened o opened)
    (hl : Bracketed o l opened) :
    ∃ opened', Bracketed o (l ++ l') opened' ∧
      (opened' = [] ∨ ∃ (s : Focus) (i : Instruction) (t : Focus),
        s.Dispatches o i t ∧ opened' = s.opening i t) := by
  rcases h with ⟨b, hacts⟩ | ⟨i, t, p, u, hwithin, hd, -, hl'⟩
  · rcases hacts.bracketed hq hl with ⟨opened', hbracketed, hopened'⟩
    exact ⟨opened', hbracketed, hopened'.eq_nil_or⟩
  · cases hq.eq_nil hwithin
    exact ⟨l', hl.open l', .inr ⟨_, i, t, hd, hl'⟩⟩

theorem Station.Runs.bracketed (h : p.Runs o l q) (hp : p.within = none) :
    ∃ opened, Bracketed o l opened ∧ q.Opened o opened := by
  -- By induction on the turns of the executor, each of which ends a bracket or leaves one open.
  induction h with
  | start =>
    rcases p with ⟨e, within⟩
    cases hp
    exact ⟨[], ⟨[], rfl, fun r hr => absurd hr List.not_mem_nil⟩, .none⟩
  | acts _ hacts ih =>
    rcases ih with ⟨opened, hl, hq⟩
    exact hacts.bracketed hq hl

/-! ## Instructions that are taken up -/

theorem Stage.Acts.begins (h : Stage.Acts o ⟨s, none⟩ l b) (hi : s.TakesUp o i) :
    ∃ l', l = ⟨.begins i, s⟩ :: l' := by
  cases h with
  | cutOff _ _ hexhausted => cases hi.notExhausted.symm.trans hexhausted
  | refused hj _ =>
    cases hi.eq hj
    exact ⟨_, rfl⟩
  | finished hd _ _ | waits hd _ _ =>
    cases hi.eq hd.takesUp
    exact ⟨_, rfl⟩

/-- A turn that takes up an instruction enters that first. -/
theorem Logging.exists_entries_of_takesUp (hi : s.TakesUp o i) :
    ∃ l, entries (turn o) s = ⟨.begins i, s⟩ :: l := by
  cases h : Guarded.turn o s with
  | ok turn t =>
    have hleaves := leaves_of_turn h
    cases turn with
    | ready | calling _ _ _ | joining _ _ => exact Stage.Acts.begins hleaves hi
    | done => exact absurd hleaves.1 hi.not_idle
  | error panic t =>
    rcases breaks_of_turn h with ⟨b, hacts⟩ | ⟨j, t, p, u, -, hd, -, hopening⟩
    · exact hacts.begins hi
    · cases hi.eq hd.takesUp
      exact ⟨_, hopening⟩

theorem Focus.TakesUp.ne_done {turn : Turn} (hi : s.TakesUp o i)
    (h : Guarded.turn o s = .ok turn t) : turn ≠ .done := by
  rintro rfl
  exact hi.not_idle (Logging.leaves_of_turn h).1

/-! ## Hooks that fail -/

theorem Focus.mem_entries_iff {c : HookCall} {calls : List HookCall} :
    ⟨.calls c, s⟩ ∈ t.entries calls ↔ c ∈ calls ∧ s = t := by
  simp [entries, and_comm, eq_comm]

theorem Focus.eq_of_mem_calls {c : HookCall} {hook : Hook} {j : Instruction}
    (hx : ⟨.calls c, s⟩ ∈ t.calls hook j) :
    s = t ∧ ∃ h, t.world.table.handler? t.exec.active = some h ∧ c = h.hookCall hook j t := by
  rcases mem_entries_iff.1 hx with ⟨hc, rfl⟩
  unfold called at hc
  split at hc
  · rename_i h hbound
    exact ⟨rfl, h, hbound, List.mem_singleton.1 hc⟩
  · cases hc

theorem Focus.eq_of_mem_routes {c : HookCall} {j : Instruction}
    (hx : ⟨.calls c, s⟩ ∈ t.routes j) :
    s = t ∧ ∃ h, Opcode.ofCode? j.opcode = none ∧
      t.world.table.handler? t.exec.active = some h ∧ h.claims j.opcode = true ∧
        c = h.hookCall .handle j t := by
  rcases mem_entries_iff.1 hx with ⟨hc, rfl⟩
  unfold routed at hc
  split at hc
  · rename_i h hnative hbound
    split at hc
    · rename_i hclaims
      exact ⟨rfl, h, hnative, hbound, hclaims, List.mem_singleton.1 hc⟩
    · cases hc
  · cases hc

theorem Action.callHook_of_handler {h : Handler} (hook : Hook) (i : Instruction)
    (hbound : s.world.table.handler? s.exec.active = some h) :
    callHook hook i s = h.call hook i s := by
  have hhandler : handler? s = .ok (some h) s := by
    rw [← hbound]
    rfl
  exact bind_of_ok hhandler _

section

variable {c : HookCall} {e : Abort}
  (hfails : (c.handler.hook c.hook c.call).perform s = .error e t)
include hfails

theorem Handler.call_of_hookCall {h : Handler} {hook : Hook} {j : Instruction}
    (hc : c = h.hookCall hook j s) :
    h.call hook j s = .error (.fault (c.handler.failure e)) (t.recorded c) := by
  subst hc
  have hperform : (h.hook hook (j.call s)).perform s = .error e t := hfails
  unfold hookCall verdict
  rw [hperform]
  exact call_of_error hperform

theorem Action.callHook_of_mem_calls {hook : Hook} {j : Instruction} {u : Focus}
    (hx : ⟨.calls c, s⟩ ∈ u.calls hook j) : s = u ∧
      callHook hook j u = .error (.fault (c.handler.failure e)) (t.recorded c) ∧
        u.calls hook j = [⟨.calls c, s⟩] := by
  rcases Focus.eq_of_mem_calls hx with ⟨rfl, h, hbound, hc⟩
  refine ⟨rfl, ?_, ?_⟩
  · rw [callHook_of_handler hook j hbound]
    exact Handler.call_of_hookCall hfails hc
  · rw [Focus.calls, Focus.called, hbound, hc]
    rfl

/-- A hook behind an instruction that fails is the last thing before the fault. -/
theorem Conclusion.fails_of_call {result : Except Fault Flow} {j : Instruction}
    (hend : Conclusion j result u l v) (hx : ⟨.calls c, s⟩ ∈ l) :
    ∃ l₀, l = l₀ ++ [⟨.calls c, s⟩, ⟨.faults (c.handler.failure e), t.recorded c⟩] ∧
      v = (t.recorded c).handled (c.handler.failure e) := by
  cases hend with
  | failed => cases List.mem_singleton.1 hx
  | @refused flow _ v' g hafter =>
    rcases List.mem_append.1 hx with hx | hx
    · rcases List.mem_cons.1 hx with hx | hx
      · cases hx
      · rcases Action.callHook_of_mem_calls hfails hx with ⟨rfl, hcall, hcalls⟩
        cases hcall.symm.trans hafter
        exact ⟨[⟨.passes, s⟩], by rw [hcalls]; rfl, rfl⟩
    · cases List.mem_singleton.1 hx
  | @ended flow _ v' hafter =>
    rcases List.mem_append.1 hx with hx | hx
    · rcases List.mem_cons.1 hx with hx | hx
      · cases hx
      · rcases Action.callHook_of_mem_calls hfails hx with ⟨-, hcall, -⟩
        cases hcall.symm.trans hafter
    · cases List.mem_singleton.1 hx

/-- If a call up to the dispatch fails, it is the dispatch that has made it. -/
theorem Focus.Dispatches.fails_of_call {s₀ t₀ : Focus} {j : Instruction}
    (hd : s₀.Dispatches o j t₀) (hx : ⟨.calls c, s⟩ ∈ s₀.opening j t₀) :
    j.run o t₀ = .error (.fault (c.handler.failure e)) (t.recorded c) ∧
      ∃ l₀, s₀.opening j t₀ = l₀ ++ [⟨.calls c, s⟩] := by
  rcases List.mem_append.1 hx with hx | hx
  · rcases List.mem_cons.1 hx with hx | hx
    · cases hx
    · -- The hook in front of the instruction has not failed.
      rcases Action.callHook_of_mem_calls hfails hx with ⟨rfl, hcall, -⟩
      cases hcall.symm.trans (dispatches_iff.1 hd).2
  · rcases List.mem_cons.1 hx with hx | hx
    · cases hx
    · rcases eq_of_mem_routes hx with ⟨rfl, h, hnative, hbound, hclaims, hc⟩
      have hcall := Handler.call_of_hookCall hfails hc
      refine ⟨?_, s₀.prelude j ++ [⟨.dispatches j, s⟩], ?_⟩
      · have hhandler : Action.handler? s = .ok (some h) s := by
          rw [← hbound]
          rfl
        have hextension : Action.callExtension j s =
            .error (.fault (c.handler.failure e)) (t.recorded c) := by
          unfold Action.callExtension
          rw [bind_of_ok hhandler]
          simp only [hclaims, if_true]
          exact bind_of_error hcall _
        unfold Instruction.run
        rw [hnative]
        exact bind_of_error hextension _
      · simp [opening, routes, routed, entries, hnative, hbound, hclaims, hc]

theorem Stage.Acts.fails_of_call (hacts : a.Acts o l b) (hx : ⟨.calls c, s⟩ ∈ l) :
    ∃ l₀, l = l₀ ++ [⟨.calls c, s⟩, ⟨.faults (c.handler.failure e), t.recorded c⟩] ∧
      b = ⟨(t.recorded c).handled (c.handler.failure e), none⟩ := by
  cases hacts with
  | cutOff _ _ _ => cases List.mem_singleton.1 hx
  | @refused s₀ t₀ j g _ hbefore =>
    rcases List.mem_append.1 hx with hx | hx
    · rcases List.mem_cons.1 hx with hx | hx
      · cases hx
      · rcases Action.callHook_of_mem_calls hfails hx with ⟨rfl, hcall, hcalls⟩
        cases hcall.symm.trans hbefore
        exact ⟨[⟨.begins j, s₀⟩], by rw [Focus.prelude, hcalls]; rfl, rfl⟩
    · cases List.mem_singleton.1 hx
  | @finished s₀ t₀ u v j result l' hd hcomes hend =>
    rcases List.mem_append.1 hx with hx | hx
    · -- The dispatch has failed, and that is how the instruction ends.
      rcases hd.fails_of_call hfails hx with ⟨hrun, l₀, hl₀⟩
      cases result with
      | ok flow => cases hrun.symm.trans hcomes
      | error g =>
        cases hrun.symm.trans hcomes
        cases hend
        exact ⟨l₀, by rw [hl₀, List.append_assoc]; rfl, rfl⟩
    · rcases hend.fails_of_call hfails hx with ⟨l₀, rfl, rfl⟩
      exact ⟨s₀.opening j t₀ ++ l₀, by rw [List.append_assoc], rfl⟩
  | waits hd hrun _ => cases (hd.fails_of_call hfails hx).1.symm.trans hrun
  | resumed _ _ hend =>
    rcases hend.fails_of_call hfails hx with ⟨l₀, rfl, rfl⟩
    exact ⟨l₀, rfl, rfl⟩

theorem Stage.Breaks.fails_of_call (hbreaks : a.Breaks o l) (hx : ⟨.calls c, s⟩ ∈ l) :
    ∃ l₀, l = l₀ ++ [⟨.calls c, s⟩, ⟨.faults (c.handler.failure e), t.recorded c⟩] := by
  rcases hbreaks with ⟨b, hacts⟩ | ⟨j, t₀, p, u, -, hd, hrun, rfl⟩
  · rcases hacts.fails_of_call hfails hx with ⟨l₀, hl₀, -⟩
    exact ⟨l₀, hl₀⟩
  · cases (hd.fails_of_call hfails hx).1.symm.trans hrun

end

namespace Machine

variable {m : Machine} {n d d' : Nat} {es : List Event} {ev : Event}

/-! ## Runs -/

theorem exists_station?_of_entered (h : m.entered o ev n d ≠ []) :
    ∃ q, m.station? n d = some q := by
  rcases turn_of_entered h with ⟨rfl, rfl⟩
  rw [entered_self] at h
  have hthere (t : Thread) (ht : m.threads[n]? = some t)
      (hheight : (m.record o n).1 < t.stations.length) :
      ∃ q, m.station? n (m.record o n).1 = some q := by
    rw [station?_of_thread ht]
    exact ⟨_, List.getElem?_eq_getElem (by simpa using hheight)⟩
  cases hthread : m.threads[n]? with
  | none => simp [record, hthread] at h
  | some thread =>
    cases thread with
    | ended result clock => simp [record, hthread] at h
    | waiting e i child callers =>
      refine hthere _ hthread ?_
      cases hending : m.ending? child <;> simp [record, hthread, hending, Thread.stations]
    | running e callers =>
      refine hthere _ hthread ?_
      have hlength : (Thread.running e callers).stations.length = callers.length + 1 := by
        simp [Thread.stations]
      rw [hlength]
      simp only [record, hthread]
      split
      · -- The executor that acts is the one below.
        exact Nat.lt_of_lt_of_le (Nat.lt_succ_self _) (Nat.le_succ _)
      · exact Nat.lt_succ_self _

/-- All executors but the one on top are within an instruction. -/
theorem within_of_lt (h : m.station? n d' = some q) (hd : d < d') :
    ∃ p, m.station? n d = some p ∧ p.within.isSome = true := by
  rcases Option.bind_eq_some_iff.1 h with ⟨t, ht, hq⟩
  have hbelow (top : Station) (callers : List Suspended)
      (hstations : t.stations = top :: callers.map Suspended.station) :
      ∃ p, m.station? n d = some p ∧ p.within.isSome = true := by
    have hlength := (List.getElem?_eq_some_iff.1 hq).1
    rw [hstations] at hlength
    have hlt : d < (callers.map Suspended.station).reverse.length := by
      simp at hlength ⊢
      omega
    have hmem := List.getElem_mem hlt
    rw [station?_of_thread ht, hstations, List.reverse_cons, List.getElem?_append_left hlt,
      List.getElem?_eq_getElem hlt]
    refine ⟨_, rfl, ?_⟩
    rcases List.mem_map.1 (List.mem_reverse.1 hmem) with ⟨c, -, hc⟩
    rw [← hc]
    rfl
  cases t with
  | running e callers => exact hbelow _ callers rfl
  | waiting e i child callers => exact hbelow _ callers rfl
  | ended result clock => cases hq

theorem breaks_of_entered (hp : m.station? n d = some p) (h : m.entered o ev n d ≠ []) :
    (p.stage m.world).Breaks o (m.entered o ev n d) := by
  cases fate o hp ev with
  | still hnothing _ | done _ _ _ hnothing _ _ => exact absurd hnothing h
  | acts hacts _ _ => exact .inl ⟨_, hacts⟩
  | panics _ _ hentered => exact hentered.resolve_left h

theorem exists_opened (h : m.station? n d = some p) (hfresh : p.within = none)
    (hstays : m.Stays o n d es) :
    ∃ opened, Bracketed o (m.log o n d es) opened ∧
      (∀ q, (m.play o es).station? n d = some q → q.Opened o opened) ∧
      (opened = [] ∨ ∃ (s : Focus) (i : Instruction) (t : Focus),
        s.Dispatches o i t ∧ opened = s.opening i t) := by
  rcases List.eq_nil_or_concat es with rfl | ⟨es, ev, rfl⟩
  · rcases (Station.Runs.start (o := o) (p := p)).bracketed hfresh with ⟨opened, hl, hopened⟩
    refine ⟨opened, hl, fun q hq => ?_, hopened.eq_nil_or⟩
    cases h.symm.trans hq
    exact hopened
  · -- The executor has lived up to the last event, and this may be its end.
    rw [List.concat_eq_append] at hstays ⊢
    rcases hstays.exists_lives h with ⟨q, hq⟩
    rcases hq.runs.bracketed hfresh with ⟨opened, hl, hopened⟩
    rw [log_concat, play_concat]
    have hthere {q' : Station} {opened' : List Entry}
        (hstation : ((m.play o es).after o ev).station? n d = some q')
        (hq' : q'.Opened o opened') (q₀ : Station)
        (hq₀ : ((m.play o es).after o ev).station? n d = some q₀) : q₀.Opened o opened' := by
      cases hstation.symm.trans hq₀
      exact hq'
    have hgone {opened' : List Entry} (hnone : ((m.play o es).after o ev).station? n d = none)
        (q₀ : Station) (hq₀ : ((m.play o es).after o ev).station? n d = some q₀) :
        q₀.Opened o opened' := by
      cases hnone.symm.trans hq₀
    cases fate o hq.last ev with
    | still hnothing hstation =>
      rw [hnothing, List.append_nil]
      exact ⟨opened, hl, hthere hstation hopened, hopened.eq_nil_or⟩
    | acts hacts hstation _ =>
      rcases hacts.bracketed hopened hl with ⟨opened', hl', hopened'⟩
      exact ⟨opened', hl', hthere hstation hopened', hopened'.eq_nil_or⟩
    | done _ _ _ hnothing hnone _ =>
      rw [hnothing, List.append_nil]
      exact ⟨opened, hl, hgone hnone, hopened.eq_nil_or⟩
    | panics _ hended hentered =>
      have hnone := station?_of_ended hended d
      rcases hentered with hnothing | hbreaks
      · rw [hnothing, List.append_nil]
        exact ⟨opened, hl, hgone hnone, hopened.eq_nil_or⟩
      · rcases hbreaks.bracketed hopened hl with ⟨opened', hl', hnil⟩
        exact ⟨opened', hl', hgone hnone, hnil⟩

theorem fails_of_call {c : HookCall} {e : Abort} (hx : ⟨.calls c, s⟩ ∈ m.entered o ev n d)
    (hfails : (c.handler.hook c.hook c.call).perform s = .error e t) :
    (∃ l, m.entered o ev n d =
      l ++ [⟨.calls c, s⟩, ⟨.faults (c.handler.failure e), t.recorded c⟩]) ∧
      ∀ q, (m.after o ev).station? n d = some q →
        q = ⟨t.exec.marked.afterFault (c.handler.failure e), none⟩ := by
  have hne := List.ne_nil_of_mem hx
  rcases exists_station?_of_entered hne with ⟨p, hp⟩
  refine ⟨(breaks_of_entered hp hne).fails_of_call hfails hx, fun q hq => ?_⟩
  rcases still_or_acts hp hq with ⟨hnothing, -⟩ | ⟨b, hacts, rfl, -⟩
  · exact absurd hnothing hne
  · rcases hacts.fails_of_call hfails hx with ⟨l₀, -, rfl⟩
    rfl

/-- Whatever the executor on top takes up is entered first. -/
theorem begins_of_takesUp (hdepth : m.depth n = d) (hi : m.TakesUp o n i) :
    ∃ s l, s.TakesUp o i ∧ m.entered o (.turn n) n d = ⟨.begins i, s⟩ :: l := by
  rcases hi with ⟨e, callers, hthread, hi⟩
  have hheight : callers.length = d := by
    rw [← hdepth, depth, hthread]
    rfl
  have hrecord : m.record o n =
      (callers.length, Logging.entries (Logging.turn o) ⟨m.world, e⟩) := by
    cases hturn : Guarded.turn o ⟨m.world, e⟩ with
    | error panic s => simp only [record, hthread, hturn]
    | ok turn s =>
      cases turn with
      | done => exact absurd rfl (hi.ne_done hturn)
      | _ => simp only [record, hthread, hturn]
  rcases Logging.exists_entries_of_takesUp hi with ⟨l, hl⟩
  refine ⟨_, l, hi, ?_⟩
  have hentered := entered_self o m n
  rwa [hrecord, hheight, hl] at hentered

/-! ## Calls on record -/

/-- An instruction that is taken up again makes the calls that are entered. -/
theorem calls_resumed {w : Wait} {a b : Action Unit} (ha : w.Accepts a)
    (hb : Logging.Erases (Logging.resume i a) b) (callers : List Suspended) (s : Focus) :
    (m.resumed n callers b s).world.calls = s.world.calls ++
      (Logging.entries (Logging.attempt (Logging.resume i a)) s).filterMap Entry.call? := by
  have hrecords := Logging.maintains_attempt
    (Logging.maintains_resume ha i (x := ⟨s, []⟩) (List.append_nil s.world.calls).symm)
  have hmakes := hb.attempt.makes s hrecords
  rcases resumed_cases n callers b s with ⟨v, t, ht, hresumed⟩ | ⟨panic, t, ht, hresumed⟩
  · rw [hresumed]
    exact hmakes.of_ok ht
  · rw [hresumed]
    exact hmakes.of_error ht

/-- So does a turn. -/
theorem calls_advance (o : Options) (m : Machine) (n : Nat) :
    (m.advance o n).world.calls =
      m.world.calls ++ ((m.record o n).2).filterMap Entry.call? := by
  have hidle : m.world.calls = m.world.calls ++ ([] : List Entry).filterMap Entry.call? :=
    (List.append_nil _).symm
  unfold advance record
  cases hthread : m.threads[n]? with
  | none => exact hidle
  | some thread =>
    cases thread with
    | ended result clock => exact hidle
    | waiting e i child callers =>
      dsimp only
      cases m.ending? child with
      | none => exact hidle
      | some ending =>
        have herases := Logging.erases_receiveJoined i ending.1
        exact calls_resumed (w := .join) ⟨_, rfl⟩ herases callers _
    | running e callers =>
      have hmakes := Logging.makes_turn o ⟨m.world, e⟩
      dsimp only
      cases hturn : Guarded.turn o ⟨m.world, e⟩ with
      | error panic s => exact hmakes.of_error hturn
      | ok turn s =>
        have hcalls := hmakes.of_ok hturn
        cases turn with
        | ready | calling _ _ _ | joining _ _ => exact hcalls
        | done =>
          cases callers with
          | nil => exact hcalls
          | cons c callers =>
            -- The turn of the executor that is done has changed nothing.
            cases Guarded.eq_of_turn_done hturn
            have herases := Logging.erases_receive c.instruction c.reception e.outcome
            exact calls_resumed (w := .call c.reception) ⟨_, rfl⟩ herases callers _

/-- Of all executors at most one enters anything in an event, and the calls that are put on record
are those that it enters. -/
theorem exists_acting (o : Options) (m : Machine) (ev : Event) :
    ∃ k d, (∀ k' d', m.entered o ev k' d' ≠ [] → k' = k ∧ d' = d) ∧
      (m.after o ev).world.calls =
        m.world.calls ++ (m.entered o ev k d).filterMap Entry.call? := by
  cases ev with
  | turn n =>
    refine ⟨n, (m.record o n).1, fun k' d' hne => ?_, ?_⟩
    · rcases turn_of_entered hne with ⟨hev, rfl⟩
      cases hev
      exact ⟨rfl, rfl⟩
    · rw [entered_self]
      exact calls_advance o m n
  | stop | host refusal =>
    refine ⟨0, 0, fun k' d' hne => ?_, ?_⟩
    · cases (turn_of_entered hne).1
    · rw [entered_of_event_ne (by simp)]
      exact (List.append_nil _).symm

/-- The log of an executor is a row of brackets, behind which is what has been entered about the
instruction that it is within. -/
theorem hooks_bracket (h : m.station? n d = some p) (hfresh : p.within = none)
    (hstays : m.Stays o n d es) :
    (∃ opened, Bracketed o (m.log o n d es) opened ∧
      (∀ q, (m.play o es).station? n d = some q → q.Opened o opened) ∧
      (opened = [] ∨ ∃ (s : Focus) (i : Instruction) (t : Focus),
        s.Dispatches o i t ∧ opened = s.opening i t)) ∧
    ∀ x ∈ m.history o es,
      -- All is entered in the state in which the executor is at that moment, and first of all the
      -- instruction that it takes up.
      (x.1.entered o x.2 n d ≠ [] → ∃ q, x.1.station? n d = some q ∧
        (q.stage x.1.world).Breaks o (x.1.entered o x.2 n d)) ∧
      (∀ i, x.2 = .turn n → x.1.depth n = d → x.1.TakesUp o n i →
        ∃ s l, s.TakesUp o i ∧ x.1.entered o x.2 n d = ⟨.begins i, s⟩ :: l) ∧
      -- While other executors stand on top of it, it is within an instruction.
      (∀ d', d < d' → x.1.entered o x.2 n d' ≠ [] → ∃ q, x.1.station? n d = some q ∧
        q.within.isSome = true) ∧
      -- At most one executor enters anything, and all calls of handlers are those that it enters.
      (∃ k d', (∀ k₁ d₁, x.1.entered o x.2 k₁ d₁ ≠ [] → k₁ = k ∧ d₁ = d') ∧
        (x.1.after o x.2).world.calls =
          x.1.world.calls ++ (x.1.entered o x.2 k d').filterMap Entry.call?) ∧
      -- When a handler fails, be it with a panic, the fault of the call is handled next.
      ∀ c s, ⟨.calls c, s⟩ ∈ x.1.entered o x.2 n d →
        ∀ e t, (c.handler.hook c.hook c.call).perform s = .error e t →
          (∃ l, x.1.entered o x.2 n d =
            l ++ [⟨.calls c, s⟩, ⟨.faults (c.handler.failure e), t.recorded c⟩]) ∧
          ∀ q, (x.1.after o x.2).station? n d = some q →
            q = ⟨t.exec.marked.afterFault (c.handler.failure e), none⟩ := by
  refine ⟨exists_opened h hfresh hstays, fun x _ => ⟨?_, ?_, ?_, ?_, ?_⟩⟩
  · intro hne
    rcases exists_station?_of_entered hne with ⟨q, hq⟩
    exact ⟨q, hq, breaks_of_entered hq hne⟩
  · intro i hev hdepth hi
    rw [hev]
    exact begins_of_takesUp hdepth hi
  · intro d' hd hne
    rcases exists_station?_of_entered hne with ⟨q, hq⟩
    exact within_of_lt hq hd
  · exact exists_acting o x.1 x.2
  · exact fun c s hx e t hfails => fails_of_call hx hfails

end Machine

/-- A handler that refuses to begin the opcode 58, panics in front of the opcode 0, and refuses to
end the opcode 9. -/
def Handler.guard : Handler where
  name := "guard"
  claimed := [200]
  before := fun call =>
    if call.opcode = 58 then .refuse "begin refused"
    else if call.opcode = 0 then .panic (.text "begin panic")
    else pure ()
  after := fun call => if call.opcode = 9 then .refuse "end refused" else pure ()
  handle := fun call => call.args.forM Act.output

/-- The handler claims the first instruction and panics in front of the second. The third fails. -/
def Program.guarded : Program := .ofList [⟨0, 200, []⟩, ⟨1, 0, []⟩, ⟨2, 9, []⟩]

namespace Machine

def guarded : Machine where
  world.table := .insert Table.initial 0 { handler := some .guard }
  threads := [.running { program := .guarded, active := 0, mode := .none } []]

/-- Three rounds: all hooks are called about the instruction that is claimed, and only the one in
front of each instruction that is not run. -/
theorem hooks_bracket_guarded :
    let schedule := List.replicate 3 (Event.turn 0)
    let fault := Handler.guard.failure (.panic (.text "begin panic"))
    Bracketed {} (guarded.log {} 0 0 schedule) [] ∧
    (guarded.log {} 0 0 schedule).filterMap
        (fun x => x.call?.map fun c => (c.hook, c.call.opcode)) =
      [(.before, 200), (.handle, 200), (.after, 200), (.before, 0), (.before, 9)] ∧
    ∃ l c s t, (guarded.turns {} 1).entered {} (.turn 0) 0 0 =
      l ++ [⟨.calls c, s⟩, ⟨.faults fault, t⟩] := by
  intro schedule fault
  have hstart : guarded.station? 0 0 =
      some ⟨{ program := .guarded, active := 0, mode := .none }, none⟩ := rfl
  have hstays : guarded.Stays {} 0 0 schedule := by
    unfold Stays
    decide +kernel
  rcases hooks_bracket hstart rfl hstays with ⟨⟨opened, hl, hopened, -⟩, hevents⟩
  have hlast : (guarded.play {} schedule).station? 0 0 = some _ := rfl
  refine ⟨?_, by decide +kernel, ?_⟩
  · rwa [(hopened _ hlast).eq_nil rfl] at hl
  · have hsecond : (guarded.turns {} 1, Event.turn 0) ∈ guarded.history {} schedule :=
      List.mem_cons_of_mem _ List.mem_cons_self
    rcases hevents _ hsecond with ⟨-, -, -, -, hfails⟩
    rcases (hfails _ _ (List.mem_cons_of_mem _ List.mem_cons_self) _ _ rfl).1 with ⟨l, hentered⟩
    exact ⟨l, _, _, _, hentered⟩

/-- A handler that counts, in the lengths of its notes, how often its hooks are called. -/
def tally : Handler :=
  let count (name : String) (_ : Call) : Act Unit := do
    Act.keep name (0 :: (← Act.remember name).getD [])
  { name := "tally", claimed := [200], before := count "begins", after := count "ends"
    handle := fun call => do
      Act.store (call.args.headD []).toWord "handled".toUTF8.toList
      Act.output "!".toUTF8.toList }

/-- Its own binding is ended, but has not been begun. -/
example :
    let p := Program.ofList [⟨0, 2, [tally.name.toUTF8.toList, [0, 0, 0, 0]]⟩,
      ⟨1, 118, [[0, 0, 0, 0]]⟩, ⟨2, 200, [[0, 0, 0, 5]]⟩, ⟨3, 1, [[0, 0, 0, 5]]⟩]
    let m := (start { registry := .ofHandlers [tally] } {} p).turns
      { registry := .ofHandlers [tally] } 5
    (m.ending? 0).map (·.1.toOption.map (·.output)) = some (some "!handled".toUTF8.toList) ∧
      m.world.notes.get? "begins" = some [0, 0] ∧ m.world.notes.get? "ends" = some [0, 0, 0] := by
  decide +kernel

end Machine

end CellMachine
