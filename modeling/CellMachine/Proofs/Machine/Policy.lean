import CellMachine.Proofs.Machine.Station
import Mathlib.Data.List.Chain

/-!
# The treatment of errors

This module proves that an executor treats every error it meets just once, as its error mode says.
The log of the executor has the faults in the order in which they are met, each with the state that
it is handled in. So the flag and the last error that the executor ends with are what the log says,
and where an executor goes after a fault shows in the entry behind it.

The one thing that a turn may change about an executor's errors is the fault at the end of the turn
(`Stage.Acts.faultsLast`).
-/

namespace CellMachine

open Stateful

variable {o : Options} {s t u v : Focus} {i : Instruction} {f : Fault} {x y : Entry}
  {l : List Entry} {a b : Stage} {p q : Station}

def Entry.fault? (x : Entry) : Option Fault :=
  match x.deed with
  | .faults f => some f
  | _ => none

def Entry.counts (x : Entry) : Bool := x.fault?.isSome && x.state.exec.mode.counts

/-- The fault halts an executor in the mode. -/
def Fault.Halts (f : Fault) (mode : ErrorMode) : Prop :=
  mode.halts = true ∨ f.kind = .instructionLimitExceeded

namespace Executor

variable (e : Executor)

@[simp] theorem afterFault_errored (f : Fault) :
    (e.afterFault f).errored = (e.errored || e.mode.counts) := by
  unfold afterFault
  dsimp only
  split <;> split <;> rfl

@[simp] theorem afterFault_lastError (f : Fault) : (e.afterFault f).lastError = some f := by
  unfold afterFault
  dsimp only
  split <;> split <;> rfl

theorem afterFault_running_of_halts (h : f.Halts e.mode) : (e.afterFault f).running = false := by
  unfold afterFault
  rcases h with h | h
  · simp [h]
  · cases f with
    | instructionLimitExceeded n => simp
    | _ => cases h

theorem afterFault_ip_of_not_halts (h : ¬f.Halts e.mode) : (e.afterFault f).ip = e.ip + 1 := by
  have hhalts : e.mode.halts = false := by
    rw [← Bool.not_eq_true]
    exact fun hmode => h (.inl hmode)
  cases f with
  | instructionLimitExceeded n => exact absurd (.inr rfl) h
  | _ => simp [afterFault, hhalts]

end Executor

/-! ## Errors in a turn -/

/-- The executor has the errors of `e`. -/
def Focus.Charged (e : Executor) (s : Focus) : Prop :=
  s.exec.errored = e.errored ∧ s.exec.lastError = e.lastError

theorem passive_charged (o : Options) (e : Executor) : Passive o (Focus.Charged e) :=
  Passive.ofBare o fun e' _ => e'.errored = e.errored ∧ e'.lastError = e.lastError

/-- No instruction changes the errors of its executor. -/
theorem Instruction.maintains_charged (i : Instruction) {e : Executor} (hs : s.Charged e) :
    Maintains (Focus.Charged e) s (i.run o) := by
  refine (passive_charged o e).ensures_instruction hs i (fun _ _ ht _ => ht) ?_ ?_
  · intro byLabel joined _
    refine Opcode.ensures_spawn hs (fun _ _ _ => hs) fun first past _ => ?_
    cases joined <;> exact hs
  · intro _
    exact Opcode.ensures_loadProgram hs fun _ _ _ => hs

/-! ## Entries about faults -/

theorem fault?_of_mem_entries {c : List HookCall} (h : x ∈ s.entries c) : x.fault? = none := by
  rcases List.mem_map.1 h with ⟨c, -, rfl⟩
  rfl

theorem fault?_of_mem_prelude (h : x ∈ s.prelude i) : x.fault? = none := by
  rcases List.mem_cons.1 h with rfl | h
  · rfl
  · exact fault?_of_mem_entries h

theorem fault?_of_mem_opening (h : x ∈ s.opening i t) : x.fault? = none := by
  rcases List.mem_append.1 h with h | h
  · exact fault?_of_mem_prelude h
  · rcases List.mem_cons.1 h with rfl | h
    · rfl
    · exact fault?_of_mem_entries h

theorem fault?_of_mem_passes {hook : Hook} (h : x ∈ ⟨.passes, s⟩ :: s.calls hook i) :
    x.fault? = none := by
  rcases List.mem_cons.1 h with rfl | h
  · rfl
  · exact fault?_of_mem_entries h

/-- The entries of an executor with the errors of `e` that comes to `b`. If there is a fault among
them, it is the last entry, and has been handled; otherwise no error has changed. -/
inductive FaultsLast (e : Executor) : List Entry → Stage → Prop where
  | faults {l : List Entry} {f : Fault} {t : Focus} : (∀ x ∈ l, x.fault? = none) →
      t.Charged e → FaultsLast e (l ++ [⟨.faults f, t⟩]) ⟨t.handled f, none⟩
  | clean {l : List Entry} {b : Stage} : (∀ x ∈ l, x.fault? = none) → b.focus.Charged e →
      FaultsLast e l b

theorem FaultsLast.append {e : Executor} {l l' : List Entry} (h : FaultsLast e l' b)
    (hl : ∀ x ∈ l, x.fault? = none) : FaultsLast e (l ++ l') b := by
  cases h with
  | faults hl' ht =>
    rw [← List.append_assoc]
    exact .faults (List.forall_mem_append.2 ⟨hl, hl'⟩) ht
  | clean hl' hb => exact .clean (List.forall_mem_append.2 ⟨hl, hl'⟩) hb

theorem Conclusion.faultsLast {result : Except Fault Flow} {e : Executor}
    (h : Conclusion i result u l v) (hu : u.Charged e) : FaultsLast e l ⟨v, none⟩ := by
  have hhook := (passive_charged {} e).maintains_callHook hu .after i
  cases h with
  | failed => exact .faults (l := []) (fun x hx => absurd hx List.not_mem_nil) hu
  | refused hafter => exact .faults (fun x hx => fault?_of_mem_passes hx) (hhook.of_error hafter)
  | @ended flow _ v hafter =>
    refine .clean (List.forall_mem_append.2 ⟨fun x hx => fault?_of_mem_passes hx, ?_⟩) ?_
    · intro x hx
      cases List.mem_singleton.1 hx
      rfl
    · have hv := hhook.of_ok hafter
      cases flow <;> exact hv

/-- A fault ends the turn that it is met in. -/
theorem Stage.Acts.faultsLast (h : a.Acts o l b) : FaultsLast a.focus.exec l b := by
  -- The hook in front of an instruction leaves the errors alone, and so does the dispatch.
  have hhook {s : Focus} (i : Instruction) :=
    (passive_charged o s.exec).maintains_callHook (s := s.counted) ⟨rfl, rfl⟩ .before i
  have hrun {s t : Focus} {i : Instruction} (hd : s.Dispatches o i t) :
      Maintains (Focus.Charged s.exec) t (i.run o) :=
    i.maintains_charged ((hhook i).of_ok hd.before)
  cases h with
  | cutOff _ _ _ => exact .faults (l := []) (fun x hx => absurd hx List.not_mem_nil) ⟨rfl, rfl⟩
  | refused _ hbefore =>
    exact .faults (fun x hx => fault?_of_mem_prelude hx) ((hhook _).of_error hbefore)
  | @finished s t u v i result l hd hcomes hend =>
    have hu : u.Charged s.exec := hcomes.maintained (hrun hd)
    exact (hend.faultsLast hu).append fun x hx => fault?_of_mem_opening hx
  | waits hd heffect _ =>
    exact .clean (fun x hx => fault?_of_mem_opening hx) ((hrun hd).of_ok heffect)
  | @resumed s u v i w action clock result l ha hcomes hend =>
    have hs : Focus.Charged s.exec { s with exec.clock := clock } := ⟨rfl, rfl⟩
    have hu := hcomes.maintained (ha.maintains (passive_charged o s.exec).stable.toSteady hs)
    exact hend.faultsLast hu

theorem FaultsLast.dropLast {e : Executor} (h : FaultsLast e l b) (hx : x ∈ l.dropLast) :
    x.fault? = none := by
  cases h with
  | faults hl _ =>
    rw [List.dropLast_concat] at hx
    exact hl x hx
  | clean hl _ => exact hl x (List.dropLast_subset l hx)

theorem FaultsLast.of_mem {e : Executor} (h : FaultsLast e l b) (hx : ⟨.faults f, t⟩ ∈ l) :
    (∃ l₀, l = l₀ ++ [⟨.faults f, t⟩] ∧ ∀ y ∈ l₀, y.fault? = none) ∧
      t.Charged e ∧ b = ⟨t.handled f, none⟩ := by
  cases h with
  | clean hl _ => cases hl _ hx
  | faults hl ht =>
    rcases List.mem_append.1 hx with hx | hx
    · cases hl _ hx
    · cases List.mem_singleton.1 hx
      exact ⟨⟨_, rfl, hl⟩, ht, rfl⟩

/-- What is entered at first in a turn of an executor that is within no instruction. -/
theorem Stage.Acts.head (h : a.Acts o l b) (ha : a.within = none) : ∃ x l', l = x :: l' ∧
    x.state = a.focus ∧ a.focus.exec.running = true ∧
      ((∃ i, x.deed = .begins i ∧ a.focus.TakesUp o i) ∨
        x.deed = .faults (.instructionLimitExceeded (o.limit.getD 0))) := by
  have hrunning {e : Executor} (hlive : e.isLive = true) : e.running = true :=
    (Bool.and_eq_true _ _ ▸ hlive : _ ∧ _).1
  cases h with
  | cutOff hlive _ _ => exact ⟨_, [], rfl, rfl, hrunning hlive, .inr rfl⟩
  | @refused s t i f hi _ =>
    exact ⟨⟨.begins i, s⟩, _, rfl, rfl, hrunning hi.live, .inl ⟨i, rfl, hi⟩⟩
  | @finished s t u v i result l hd _ _ =>
    exact ⟨⟨.begins i, s⟩, _, rfl, rfl, hrunning hd.live, .inl ⟨i, rfl, hd.takesUp⟩⟩
  | @waits s t u i effect w hd _ _ =>
    exact ⟨⟨.begins i, s⟩, _, rfl, rfl, hrunning hd.live, .inl ⟨i, rfl, hd.takesUp⟩⟩
  | resumed _ _ _ => cases ha

/-! ## What comes of an instruction that is begun -/

def Entry.begins? (x : Entry) : Option Instruction :=
  match x.deed with
  | .begins i => some i
  | _ => none

/-- The entries that follow when the instruction `i` is begun in the state `s`: the call in front of
it, and then its dispatch, or the fault that the call has failed with. -/
inductive Focus.Proceeds (s : Focus) (i : Instruction) : List Entry → Prop where
  | dispatched {t : Focus} {l : List Entry} : Action.callHook .before i s.counted = .ok () t →
      Proceeds s i (s.counted.calls .before i ++ ⟨.dispatches i, t⟩ :: l)
  | refused {t : Focus} {f : Fault} {l : List Entry} :
      Action.callHook .before i s.counted = .error (.fault f) t →
      Proceeds s i (s.counted.calls .before i ++ ⟨.faults f, t⟩ :: l)

theorem Focus.Proceeds.append (h : s.Proceeds i l) (l' : List Entry) : s.Proceeds i (l ++ l') := by
  cases h with
  | dispatched hbefore =>
    rw [List.append_assoc, List.cons_append]
    exact .dispatched hbefore
  | refused hbefore =>
    rw [List.append_assoc, List.cons_append]
    exact .refused hbefore

theorem begins?_of_mem_entries {c : List HookCall} (h : x ∈ s.entries c) : x.begins? = none := by
  rcases List.mem_map.1 h with ⟨c, -, rfl⟩
  rfl

theorem Conclusion.begins? {result : Except Fault Flow} (h : Conclusion i result u l v)
    (hx : x ∈ l) : x.begins? = none := by
  cases h with
  | failed =>
    cases List.mem_singleton.1 hx
    rfl
  | refused _ | ended _ =>
    rcases List.mem_append.1 hx with hx | hx
    · rcases List.mem_cons.1 hx with rfl | hx
      · rfl
      · exact begins?_of_mem_entries hx
    · cases List.mem_singleton.1 hx
      rfl

/-- In a turn an instruction is begun first, if at all. -/
theorem eq_of_begins {l₁ l₂ : List Entry} (hl : ∀ y ∈ l, y.begins? = none)
    (h : x :: l = l₁ ++ ⟨.begins i, s⟩ :: l₂) : x = ⟨.begins i, s⟩ ∧ l₂ = l := by
  cases l₁ with
  | nil =>
    cases h
    exact ⟨rfl, rfl⟩
  | cons y l₁ =>
    cases h
    cases hl _ (List.mem_append_right _ List.mem_cons_self)

theorem Stage.Acts.proceeds (h : a.Acts o l b) {l₁ l₂ : List Entry}
    (hl : l = l₁ ++ ⟨.begins i, s⟩ :: l₂) : s.Proceeds i l₂ := by
  -- Behind a dispatch come the calls that it makes, and then what the instruction ends in.
  have hdispatched {s₀ t : Focus} {j : Instruction} {l' : List Entry} (hd : s₀.Dispatches o j t)
      (hl' : ∀ y ∈ l', y.begins? = none)
      (heq : s₀.opening j t ++ l' = l₁ ++ ⟨.begins i, s⟩ :: l₂) : s.Proceeds i l₂ := by
    have hshape : s₀.opening j t ++ l' = ⟨.begins j, s₀⟩ ::
        (s₀.counted.calls .before j ++ ⟨.dispatches j, t⟩ :: (t.routes j ++ l')) := by
      simp [Focus.opening, Focus.prelude]
    rw [hshape] at heq
    have hrest : ∀ y ∈ s₀.counted.calls .before j ++ ⟨.dispatches j, t⟩ :: (t.routes j ++ l'),
        y.begins? = none := by
      refine List.forall_mem_append.2 ⟨fun y hy => begins?_of_mem_entries hy, ?_⟩
      refine List.forall_mem_cons.2 ⟨rfl, List.forall_mem_append.2 ⟨?_, hl'⟩⟩
      exact fun y hy => begins?_of_mem_entries hy
    rcases eq_of_begins hrest heq with ⟨hbegins, rfl⟩
    cases hbegins
    exact .dispatched hd.before
  cases h with
  | cutOff _ _ _ => cases (eq_of_begins (fun y hy => absurd hy List.not_mem_nil) hl).1
  | @refused s₀ t j f hi hbefore =>
    have hrest : ∀ y ∈ s₀.counted.calls .before j ++ [⟨.faults f, t⟩], y.begins? = none := by
      refine List.forall_mem_append.2 ⟨fun y hy => begins?_of_mem_entries hy, ?_⟩
      exact List.forall_mem_singleton.2 rfl
    rcases eq_of_begins hrest hl with ⟨hbegins, rfl⟩
    cases hbegins
    exact .refused hbefore
  | finished hd _ hend => exact hdispatched hd (fun y hy => hend.begins? hy) hl
  | waits hd _ _ =>
    rw [← List.append_nil (Focus.opening _ _ _)] at hl
    exact hdispatched hd (fun y hy => absurd hy List.not_mem_nil) hl
  | resumed _ _ hend =>
    have hmem : ⟨.begins i, s⟩ ∈ l := hl ▸ List.mem_append_right _ List.mem_cons_self
    cases hend.begins? hmem

/-! ## Errors in a run -/

/-- The entry `y` may come behind the entry `x`: if `x` is about a fault, the fault has not halted
the executor, and `y` is where the executor goes next. -/
def Entry.Precedes (o : Options) (x y : Entry) : Prop :=
  ∀ f, x.fault? = some f → ¬f.Halts x.state.exec.mode ∧
    y.state.exec = x.state.exec.marked.afterFault f ∧
      ((∃ i, y.deed = .begins i ∧ y.state.TakesUp o i ∧
          x.state.exec.program.get? (x.state.exec.ip + 1) = some i) ∨
        y.deed = .faults (.instructionLimitExceeded (o.limit.getD 0)))

namespace Station.Runs

theorem errored (h : p.Runs o l q) :
    q.exec.errored = (p.exec.errored || l.any Entry.counts) := by
  induction h with
  | start => rw [List.any_nil, Bool.or_false]
  | @acts l l' q w b _ hacts ih =>
    rw [List.any_append, ← Bool.or_assoc, ← ih]
    change b.focus.exec.errored = _
    have hclean {l : List Entry} (hl : ∀ x ∈ l, x.fault? = none) : l.any Entry.counts = false := by
      rw [List.any_eq_false]
      intro x hx
      simp [Entry.counts, hl x hx]
    cases hacts.faultsLast with
    | clean hl hb => rw [hclean hl, Bool.or_false, hb.1]; rfl
    | @faults l₀ f t hl ht =>
      rw [List.any_append, hclean hl, Bool.false_or]
      calc (t.handled f).exec.errored
          = (t.exec.errored || t.exec.mode.counts) := t.exec.marked.afterFault_errored f
        _ = (q.exec.errored || t.exec.mode.counts) := by rw [ht.1]; rfl
        _ = (q.exec.errored || [(⟨.faults f, t⟩ : Entry)].any Entry.counts) := by
          simp [Entry.counts, Entry.fault?]

theorem lastError (h : p.Runs o l q) :
    q.exec.lastError = (l.filterMap Entry.fault?).getLast?.or p.exec.lastError := by
  induction h with
  | start => rfl
  | @acts l l' q w b _ hacts ih =>
    rw [List.filterMap_append, List.getLast?_append]
    change b.focus.exec.lastError = _
    have hclean {l : List Entry} (hl : ∀ x ∈ l, x.fault? = none) :
        l.filterMap Entry.fault? = [] := List.filterMap_eq_nil_iff.2 hl
    cases hacts.faultsLast with
    | clean hl hb =>
      rw [hclean hl, hb.2]
      exact ih
    | @faults l₀ f t hl ht =>
      rw [List.filterMap_append, hclean hl]
      exact t.exec.marked.afterFault_lastError f

/-- Behind a fault an executor goes on where the policy says, if it goes on. -/
theorem isChain (h : p.Runs o l q) : l.IsChain (Entry.Precedes o) ∧
    ∀ x ∈ l.getLast?, ∀ f, x.fault? = some f →
      q = ⟨x.state.exec.marked.afterFault f, none⟩ := by
  induction h with
  | start => exact ⟨.nil, fun x hx => absurd hx (Option.not_mem_none x)⟩
  | @acts l l' q w b _ hacts ih =>
    rcases ih with ⟨hchain, hlast⟩
    have hfaults := hacts.faultsLast
    refine ⟨hchain.append ?_ ?_, ?_⟩
    · -- Within a turn nothing comes behind a fault.
      refine List.isChain_iff_forall_rel_of_append_cons_cons.2 ?_
      rintro x y l₁ l₂ rfl f hf
      have hx : x ∈ (l₁ ++ x :: y :: l₂).dropLast := by
        rw [List.dropLast_append_of_ne_nil (List.cons_ne_nil _ _), List.dropLast_cons_cons]
        exact List.mem_append_right _ List.mem_cons_self
      rw [hfaults.dropLast hx] at hf
      cases hf
    · -- The turn starts from where the fault has left the executor.
      intro x hx y hy f hf
      have hq := hlast x hx f hf
      subst hq
      rcases hacts.head rfl with ⟨y', l'', rfl, hstate, hrunning, hdeed⟩
      cases hy
      have hcontinues : ¬f.Halts x.state.exec.mode := by
        intro hhalts
        have hhalted := x.state.exec.marked.afterFault_running_of_halts hhalts
        exact Bool.false_ne_true (hhalted.symm.trans hrunning)
      refine ⟨hcontinues, congrArg Focus.exec hstate, ?_⟩
      rcases hdeed with ⟨i, hbegins, hi⟩ | hlimit
      · have hnext : (x.state.exec.marked.afterFault f).program.get?
            (x.state.exec.marked.afterFault f).ip = some i := hi.instruction
        rw [Executor.afterFault_program,
          Executor.afterFault_ip_of_not_halts x.state.exec.marked hcontinues] at hnext
        exact .inl ⟨i, hbegins, hstate ▸ hi, hnext⟩
      · exact .inr hlimit
    · -- If the turn ends with a fault, that has been handled.
      intro x hx f hf
      rw [List.getLast?_append_of_ne_nil _ hacts.ne_nil] at hx
      cases hfaults with
      | clean hl _ => cases (hl x (List.mem_of_getLast? hx)).symm.trans hf
      | faults _ _ =>
        rw [List.getLast?_concat] at hx
        cases hx
        cases hf
        rfl

/-- Whatever is begun is dispatched, or the hook in front of it fails. -/
theorem proceeds (h : p.Runs o l q) {l₁ l₂ : List Entry}
    (hl : l = l₁ ++ ⟨.begins i, s⟩ :: l₂) : s.Proceeds i l₂ := by
  induction h generalizing l₁ l₂ with
  | start => cases (List.append_eq_nil_iff.1 hl.symm).2
  | @acts l l' q w b _ hacts ih =>
    -- The instruction is begun in this turn or in one before it.
    rcases List.append_eq_append_iff.1 hl with ⟨l₃, rfl, hl'⟩ | ⟨l₃, rfl, hl'⟩
    · exact hacts.proceeds hl'
    · cases l₃ with
      | nil =>
        have hfirst : l' = [] ++ ⟨.begins i, s⟩ :: l₂ := hl'.symm
        exact hacts.proceeds hfirst
      | cons x l₃ =>
        cases hl'
        exact (ih rfl).append l'

end Station.Runs

namespace Machine

variable {m : Machine} {n d : Nat} {p' : Station} {es : List Event} {ev : Event}

theorem Lives.tail (h : m.Lives o n d p (ev :: es) p') :
    ∃ q, (m.after o ev).Lives o n d q es p' := by
  have hstays : (m.after o ev).Stays o n d es := (List.forall_mem_cons.1 h.stays).2
  have hlast : ((m.after o ev).play o es).station? n d = some p' := h.last
  cases es with
  | nil => exact ⟨p', hlast, hstays, hlast⟩
  | cons next es =>
    rcases Option.isSome_iff_exists.1 (List.forall_mem_cons.1 hstays).1 with ⟨q, hq⟩
    exact ⟨q, hq, hstays, hlast⟩

/-- The executor is there before and after every event of its life. -/
theorem Lives.exists_around (h : m.Lives o n d p es p') {x : Machine × Event}
    (hx : x ∈ m.history o es) :
    ∃ q q', x.1.station? n d = some q ∧ (x.1.after o x.2).station? n d = some q' := by
  induction es generalizing m p with
  | nil => cases hx
  | cons ev es ih =>
    rcases h.tail with ⟨q, hq⟩
    rcases List.mem_cons.1 hx with rfl | hx
    · exact ⟨p, q, h.start, hq.start⟩
    · exact ih hq hx

/-- In the turn in which it is met, a fault is handled. -/
theorem Lives.handled (h : m.Lives o n d p es p') {x : Machine × Event} (hx : x ∈ m.history o es)
    (hf : ⟨.faults f, t⟩ ∈ x.1.entered o x.2 n d) :
    (∃ l, x.1.entered o x.2 n d = l ++ [⟨.faults f, t⟩] ∧ ∀ y ∈ l, y.fault? = none) ∧
      (x.1.after o x.2).station? n d = some ⟨t.exec.marked.afterFault f, none⟩ ∧
      (x.1.after o x.2).world = { (t.handled f).world with arrivals := [] } := by
  rcases h.exists_around hx with ⟨q, q', hq, hq'⟩
  rcases still_or_acts hq hq' with ⟨hnothing, -⟩ | ⟨b, hacts, rfl, hworld⟩
  · rw [hnothing] at hf
    cases hf
  · rcases hacts.faultsLast.of_mem hf with ⟨hentered, -, rfl⟩
    exact ⟨hentered, hq', hworld⟩

/-- What an executor leaves behind at the bottom of its thread. -/
theorem Lives.outcome (h : m.Lives o n 0 p es p') {outcome : Outcome} {clock : Nat}
    (hended : (m.play o (es ++ [ev])).ending? n = some (.ok outcome, clock)) :
    outcome = p'.exec.outcome := by
  rw [play_concat] at hended
  have hgone := station?_of_ended hended 0
  cases fate o h.last ev with
  | still _ hstation => cases hgone.symm.trans hstation
  | acts _ hstation _ => cases hgone.symm.trans hstation
  | panics _ hpanic _ => cases hpanic.symm.trans hended
  | done _ _ _ _ _ hdone =>
    cases (hdone rfl).symm.trans hended
    rfl

theorem any_counts_iff : l.any Entry.counts = true ↔
    ∃ f t, ⟨.faults f, t⟩ ∈ l ∧ t.exec.mode ≠ .none := by
  rw [List.any_eq_true]
  refine ⟨?_, ?_⟩
  · rintro ⟨⟨deed, t⟩, hx, hcounts⟩
    cases deed with
    | faults f => exact ⟨f, t, hx, of_decide_eq_true hcounts⟩
    | _ => cases hcounts
  · rintro ⟨f, t, hx, hmode⟩
    exact ⟨_, hx, decide_eq_true hmode⟩

/-- From `p` to `p'` an executor meets the faults of its log, and treats each as its mode says. -/
theorem errors_follow_policy (h : m.Lives o n d p es p') :
    -- The flag is set by a fault in a mode other than `none`, and the last fault is kept.
    (p'.exec.errored = true ↔ p.exec.errored = true ∨
      ∃ f t, ⟨.faults f, t⟩ ∈ m.log o n d es ∧ t.exec.mode ≠ .none) ∧
    p'.exec.lastError =
      ((m.log o n d es).filterMap Entry.fault?).getLast?.or p.exec.lastError ∧
    (d = 0 → ∀ ev outcome clock,
      (m.play o (es ++ [ev])).ending? n = some (.ok outcome, clock) →
        outcome = p'.exec.outcome) ∧
    -- The turn of a fault ends with it. It leaves the executor marked and moved, and the diagnostic
    -- in the sink, as the mode in which the fault is met says.
    (∀ x ∈ m.history o es, ∀ f t, ⟨.faults f, t⟩ ∈ x.1.entered o x.2 n d →
      (∃ l, x.1.entered o x.2 n d = l ++ [⟨.faults f, t⟩] ∧ ∀ y ∈ l, y.fault? = none) ∧
      (x.1.after o x.2).station? n d = some ⟨t.exec.marked.afterFault f, none⟩ ∧
      (x.1.after o x.2).world = { (t.handled f).world with arrivals := [] }) ∧
    -- Nothing comes behind a fault that halts the executor. Behind any other one the executor goes
    -- on with the next instruction of its program, unless it has reached the limit. That one is the
    -- next to be dispatched, unless the hook in front of it fails, with the next fault.
    ∀ l₁ f t l₂, m.log o n d es = l₁ ++ ⟨.faults f, t⟩ :: l₂ →
      (f.Halts t.exec.mode → l₂ = []) ∧
      ∀ y l, l₂ = y :: l → y.state.exec = t.exec.marked.afterFault f ∧
        ((∃ i, y.deed = .begins i ∧ y.state.TakesUp o i ∧
            t.exec.program.get? (t.exec.ip + 1) = some i ∧ y.state.Proceeds i l) ∨
          y.deed = .faults (.instructionLimitExceeded (o.limit.getD 0))) := by
  have hruns := h.runs
  -- The log is a chain, so that each entry tells about the next one.
  have hnext {l₁ : List Entry} {f : Fault} {t : Focus} {y : Entry} {l : List Entry}
      (hlog : m.log o n d es = l₁ ++ ⟨.faults f, t⟩ :: y :: l) :
      Entry.Precedes o ⟨.faults f, t⟩ y :=
    List.isChain_iff_forall_rel_of_append_cons_cons.1 hruns.isChain.1 hlog
  refine ⟨?_, hruns.lastError, ?_, ?_, ?_⟩
  · rw [hruns.errored, Bool.or_eq_true, any_counts_iff]
  · rintro rfl ev outcome clock hended
    exact h.outcome hended
  · exact fun x hx f t hf => h.handled hx hf
  · rintro l₁ f t l₂ hlog
    refine ⟨fun hhalts => ?_, ?_⟩
    · cases l₂ with
      | nil => rfl
      | cons y l => exact absurd hhalts (hnext hlog f rfl).1
    · rintro ⟨deed, u⟩ l rfl
      rcases (hnext hlog f rfl).2 with ⟨hexec, ⟨i, hbegins, hi, hget⟩ | hlimit⟩
      · -- What the log says behind the beginning of the instruction.
        cases hbegins
        have hbehind : m.log o n d es = (l₁ ++ [⟨.faults f, t⟩]) ++ ⟨.begins i, u⟩ :: l := by
          rw [hlog, List.append_assoc, List.singleton_append]
        exact ⟨hexec, .inl ⟨i, rfl, hi, hget, hruns.proceeds hbehind⟩⟩
      · exact ⟨hexec, .inr hlimit⟩

end Machine

/-- Programs whose instructions fail in three modes: displayed, silent, and displayed with a halt.
The last instruction is never reached. -/
def Program.failing : Program :=
  .ofList [⟨0, 113, []⟩, ⟨1, 19, [[0, 0, 0, 7]]⟩, ⟨2, 115, []⟩, ⟨3, 19, [[0, 0, 0, 8]]⟩,
    ⟨4, 112, []⟩, ⟨5, 19, [[0, 0, 0, 9]]⟩, ⟨6, 58, []⟩]

namespace Machine

theorem errors_follow_policy_failing :
    let m := Machine.start {} { sink := some {} } .failing
    ∃ p', m.Lives {} 0 0 ⟨{ program := .failing, active := 0 }, none⟩
        (List.replicate 6 (.turn 0)) p' ∧
      p'.exec.errored = true ∧ p'.exec.lastError = some (.undefinedAddress 9) := by
  intro m
  have hlast : ((m.play {} (List.replicate 6 (.turn 0))).station? 0 0).isSome = true := by
    decide +kernel
  rcases Option.isSome_iff_exists.1 hlast with ⟨p', hp'⟩
  have hlives : m.Lives {} 0 0 ⟨{ program := .failing, active := 0 }, none⟩
      (List.replicate 6 (.turn 0)) p' := ⟨rfl, by unfold Stays; decide +kernel, hp'⟩
  have hcounts : (m.log {} 0 0 (List.replicate 6 (.turn 0))).any Entry.counts = true := by
    decide +kernel
  have hfaults : (m.log {} 0 0 (List.replicate 6 (.turn 0))).filterMap Entry.fault? =
      [.undefinedAddress 7, .undefinedAddress 8, .undefinedAddress 9] := by
    decide +kernel
  have hpolicy := errors_follow_policy hlives
  refine ⟨p', hlives, hpolicy.1.2 (.inr (any_counts_iff.1 hcounts)), ?_⟩
  rw [hpolicy.2.1, hfaults]
  rfl

/-- An instruction that fails, one that a handler refuses, and one that does neither. -/
def hindered : Machine where
  world := { table := .insert Table.initial 0 { handler := some {
    name := "guard"
    claimed := []
    before := fun call => if call.opcode = 58 then .refuse "begin refused" else pure ()
    handle := fun _ => pure () } } }
  threads := [.running { program := .ofList [⟨0, 19, [[0, 0, 0, 9]]⟩, ⟨1, 58, []⟩,
    ⟨2, 2, [[120], [0, 0, 0, 1]]⟩], active := 0, mode := .none } []]

/-- Behind a fault at the position 0 that does not halt its executor, the instruction at the
position 1 is the next to begin, but the next to be dispatched is the one at the position 2. -/
theorem dispatch_skips_refused :
    ((hindered.log {} 0 0 (List.replicate 3 (.turn 0))).filterMap fun x =>
      match x.deed with
      | .faults f => some (some f, x.state.exec.ip)
      | .dispatches _ => some (none, x.state.exec.ip)
      | _ => none) =
    [(none, 0), (some (.undefinedAddress 9), 0),
      (some (.extension (.refused "begin refused")), 1), (none, 2)] := by
  decide +kernel

end Machine

end CellMachine
