import CellMachine.Proofs.Machine.Change
import CellMachine.Proofs.Machine.Run

/-!
# Turns

This module proves what a turn ensures, from what the instruction that it dispatches ensures. A turn
is idle, or finds its executor exhausted, or takes up an instruction; and an instruction that fails
is handled before the turn is over. The same goes for an instruction that is taken up again when the
executor that it has waited for is done.
-/

namespace CellMachine

open Stateful

/-- A turn of the state `s` takes up the instruction `i`, whatever the extension that is bound may
do about it. -/
structure Focus.TakesUp (o : Options) (s : Focus) (i : Instruction) : Prop where
  live : s.exec.isLive = true
  notStopped : s.world.stopped = false
  notExhausted : s.exec.isExhausted o = false
  instruction : s.exec.program.get? s.exec.ip = some i

variable {o : Options} {I : Focus → Prop} {s t : Focus} {i : Instruction}

theorem Focus.TakesUp.eq {j : Instruction} (hi : s.TakesUp o i) (hj : s.TakesUp o j) : i = j :=
  Option.some.inj (hi.instruction.symm.trans hj.instruction)

theorem Focus.TakesUp.not_idle (h : s.TakesUp o i) :
    ¬(s.exec.isLive = false ∨ s.world.stopped = true) := by
  simp [h.live, h.notStopped]

/-- The state in which an instruction that is taken up is counted. -/
def Focus.counted (s : Focus) : Focus :=
  { s with exec := { s.exec with steps := s.exec.steps + 1 } }

theorem Focus.Dispatches.takesUp (h : s.Dispatches o i t) : s.TakesUp o i :=
  ⟨h.live, h.notStopped, h.notExhausted, h.instruction⟩

theorem Focus.dispatches_iff :
    s.Dispatches o i t ↔ s.TakesUp o i ∧ Action.callHook .before i s.counted = .ok () t :=
  ⟨fun h => ⟨h.takesUp, h.before⟩, fun h =>
    ⟨h.1.live, h.1.notStopped, h.1.notExhausted, h.1.instruction, h.2⟩⟩

/-- The hook in front of an instruction decides whether it is dispatched. -/
theorem Focus.TakesUp.dispatches_or_fails (h : s.TakesUp o i) :
    (∃ t, s.Dispatches o i t) ∨ ∃ a t, Action.callHook .before i s.counted = .error a t := by
  cases hbefore : Action.callHook .before i s.counted with
  | ok u t => exact .inl ⟨t, dispatches_iff.2 ⟨h, hbefore⟩⟩
  | error a t => exact .inr ⟨a, t, rfl⟩

/-! ## Executors -/

namespace Executor

variable (e : Executor) (f : Fault)

theorem lt_size_of_isLive {e : Executor} (h : e.isLive = true) : e.ip < e.program.size := by
  simp only [isLive, Bool.and_eq_true, decide_eq_true_eq] at h
  exact h.2

@[simp] theorem afterFault_program : (e.afterFault f).program = e.program := by
  unfold afterFault
  dsimp only
  split <;> split <;> rfl

@[simp] theorem afterFault_active : (e.afterFault f).active = e.active := by
  unfold afterFault
  dsimp only
  split <;> split <;> rfl

@[simp] theorem afterFault_steps : (e.afterFault f).steps = e.steps := by
  unfold afterFault
  dsimp only
  split <;> split <;> rfl

@[simp] theorem afterFault_running_of_limit (n : Nat) :
    (e.afterFault (.instructionLimitExceeded n)).running = false := by
  simp [afterFault]

/-- After a fault an executor goes on behind the instruction, or halts at it. -/
theorem afterFault_cases :
    (e.afterFault f).ip = e.ip + 1 ∧ (e.afterFault f).running = e.running ∨
      (e.afterFault f).ip = e.ip ∧ (e.afterFault f).running = false := by
  unfold afterFault
  dsimp only
  split <;> split
  all_goals first | exact .inr ⟨rfl, rfl⟩ | exact .inl ⟨rfl, rfl⟩

end Executor

/-! ## Turns by what they take up -/

def Focus.starts (o : Options) (s : Focus) : Bool :=
  s.exec.isLive && !s.world.stopped && !s.exec.isExhausted o

theorem Focus.exists_takesUp_of_starts (h : s.starts o = true) : ∃ i, s.TakesUp o i := by
  simp only [starts, Bool.and_eq_true, Bool.not_eq_true'] at h
  rcases h with ⟨⟨hlive, hstopped⟩, hexhausted⟩
  have hbound : s.exec.ip < s.exec.program.instructions.length := Executor.lt_size_of_isLive hlive
  exact ⟨_, hlive, hstopped, hexhausted, List.getElem?_eq_getElem hbound⟩

theorem Focus.TakesUp.starts (h : s.TakesUp o i) : s.starts o = true := by
  simp [Focus.starts, h.live, h.notStopped, h.notExhausted]

namespace Guarded

/-- A turn is idle, or it meets the limit, or it takes up an instruction. -/
theorem turn_cases (o : Options) (s : Focus) :
    ((s.exec.isLive = false ∨ s.world.stopped = true) ∧ turn o s = .ok .done s) ∨
      (s.exec.isLive = true ∧ s.exec.isExhausted o = true ∧ turn o s =
        (do handle (.instructionLimitExceeded (o.limit.getD 0)); return .ready : Guarded Turn) s) ∨
      ∃ i, s.TakesUp o i ∧ turn o s =
        (do return (← attempt (Action.runInstruction o i)).getD .ready : Guarded Turn)
          s.counted := by
  unfold turn
  rw [get_bind]
  cases hlive : s.exec.isLive with
  | false => exact .inl ⟨.inl rfl, rfl⟩
  | true =>
    cases hstopped : s.world.stopped with
    | true => exact .inl ⟨.inr rfl, rfl⟩
    | false =>
      cases hexhausted : s.exec.isExhausted o with
      | true => exact .inr (.inl ⟨rfl, rfl, rfl⟩)
      | false =>
        -- An executor that is live stands at an instruction.
        cases hi : s.exec.program.get? s.exec.ip with
        | none =>
          have hsize : s.exec.program.size ≤ s.exec.ip := List.getElem?_eq_none_iff.1 hi
          exact absurd (Executor.lt_size_of_isLive hlive) (Nat.not_lt.2 hsize)
        | some i => exact .inr (.inr ⟨i, ⟨hlive, hstopped, hexhausted, hi⟩, rfl⟩)

theorem attempt_congr {α : Type} {a b : Action α} (h : a s = b t) :
    attempt a s = attempt b t := by
  unfold attempt
  rw [h]

/-- A turn that takes up an instruction is an attempt to run it. -/
theorem turn_of_takesUp (h : s.TakesUp o i) : turn o s =
    (do return (← attempt (Action.runInstruction o i)).getD .ready : Guarded Turn) s.counted := by
  rcases turn_cases o s with ⟨hidle, -⟩ | ⟨-, hexhausted, -⟩ | ⟨i', h', hturn⟩
  · exact absurd hidle h.not_idle
  · rw [h.notExhausted] at hexhausted
    cases hexhausted
  · cases h.eq h'
    exact hturn

/-- The turn goes on from the state in which an instruction that is over at once leaves it. -/
theorem turn_of_flow {u : Focus} {f : Flow} (h : s.Dispatches o i t)
    (hrun : i.run o t = .ok (.flow f) u) : turn o s =
      (do return (← attempt (do Action.finish i f; return Turn.ready)).getD .ready : Guarded Turn)
        u := by
  have hinstruction : Action.runInstruction o i s.counted =
      (do Action.finish i f; return Turn.ready : Action Turn) u :=
    (bind_of_ok h.before _).trans (bind_of_ok hrun _)
  rw [turn_of_takesUp h.takesUp]
  change EStateM.bind _ _ s.counted = EStateM.bind _ _ u
  unfold EStateM.bind
  rw [attempt_congr hinstruction]

theorem turn_of_call {u : Focus} {callee : Executor} {r : Reception} (h : s.Dispatches o i t)
    (hrun : i.run o t = .ok (.call callee r) u) : turn o s = .ok (.calling i callee r) u := by
  have hinstruction : Action.runInstruction o i s.counted = .ok (.calling i callee r) u :=
    (bind_of_ok h.before _).trans (bind_of_ok hrun _)
  have hattempt : attempt (Action.runInstruction o i) s.counted =
      .ok (some (.calling i callee r)) u := by
    simp only [attempt, hinstruction]
  exact (turn_of_takesUp h.takesUp).trans (bind_of_ok hattempt _)

theorem turn_of_join {u : Focus} {child : Executor} (h : s.Dispatches o i t)
    (hrun : i.run o t = .ok (.join child) u) : turn o s = .ok (.joining i child) u := by
  have hinstruction : Action.runInstruction o i s.counted = .ok (.joining i child) u :=
    (bind_of_ok h.before _).trans (bind_of_ok hrun _)
  have hattempt : attempt (Action.runInstruction o i) s.counted =
      .ok (some (.joining i child)) u := by
    simp only [attempt, hinstruction]
  exact (turn_of_takesUp h.takesUp).trans (bind_of_ok hattempt _)

/-- What is handled has been printed and marked before the executor goes on. -/
theorem ensures_handle (hI : Steady o I) (hs : I s) (f : Fault) {Q : Unit → Focus → Prop}
    (hQ : ∀ t, I t → Q () { t with exec := t.exec.afterFault f }) :
    Ensures I s (handle f) Q := by
  refine ensures_get ?_
  dsimp only
  split
  · refine Ensures.bind (P := fun _ t => I t) (hI.output _ hs) ?_
    intro _ t ht
    refine (hI.maintains_guardedPrint ht _).bind ?_
    intro _ t ht
    exact ensures_modify (hQ t ht)
  · exact ensures_modify (hQ s hs)

/-- An action is attempted: either it has a value, or its fault is handled. -/
theorem ensures_attempt {α : Type} (hI : Stable o I) {a : Action α} {P : α → Focus → Prop}
    {Q : Option α → Focus → Prop} (ha : Ensures I s a P) (hP : ∀ v t, P v t → Q (some v) t)
    (hQ : ∀ f t, I t → Q none { t with exec := t.exec.afterFault f }) :
    Ensures I s (attempt a) Q := by
  unfold attempt
  cases h : a s with
  | ok v t =>
    refine ensures_of_ok (v := some v) (t := t) ?_ (hP v t (ha.of_ok h))
    simp only [h]
  | error e t =>
    have ht := ha.of_error h
    cases e with
    | panic p =>
      refine ensures_of_error (e := p) (t := t) ?_ ht
      simp only [h]
    | fault f =>
      have hhandle := ensures_handle hI.toSteady ht f (Q := fun _ t => Q none t) (hQ f)
      cases hf : handle f t with
      | ok u t' =>
        refine ensures_of_ok (v := none) (t := t') ?_ (hhandle.of_ok hf)
        simp only [h, hf]
      | error p t' =>
        refine ensures_of_error (e := p) (t := t') ?_ (hhandle.of_error hf)
        simp only [h, hf]

end Guarded

/-- An instruction is brought to its end by a hook that keeps `K` and by the move of its executor. A
hook that fails leaves what `hend` says. -/
theorem Action.ensures_finish {K : Focus → Prop} (hK : Stable o K) (hs : K s) {f : Flow}
    {Q : Unit → Focus → Prop}
    (hend : ∀ e t, callHook .after i s = .error e t → K t → I t)
    (hQ : ∀ t, K t → Q () { t with exec := t.exec.follow f }) :
    Ensures I s (finish i f) Q := by
  have hhook := hK.maintains_callHook hs .after i
  cases h : callHook .after i s with
  | ok u t =>
    have hmove : finish i f s = .ok () { t with exec := t.exec.follow f } := bind_of_ok h _
    exact ensures_of_ok hmove (hQ t (hhook.of_ok h))
  | error e t =>
    have hfail : finish i f s = .error e t := bind_of_error h _
    exact ensures_of_error hfail (hend e t h (hhook.of_error h))

/-- The hook that is called at the end of the instruction `i` fails. -/
def Focus.EndFails (o : Options) (s : Focus) : Prop :=
  ∃ i t f u e v, s.Dispatches o i t ∧ i.run o t = .ok (.flow f) u ∧
    Action.callHook .after i u = .error e v

/-- What the end of an instruction ensures. -/
theorem Guarded.ensures_finishing {K : Focus → Prop} {Q : Turn → Focus → Prop} (hI : Stable o I)
    (hK : Stable o K) (hs : K s) {f : Flow}
    (hend : ∀ e t, Action.callHook .after i s = .error e t → K t → I t)
    (hfollow : ∀ t, K t → Q .ready { t with exec := t.exec.follow f })
    (hfault : ∀ f t, I t → Q .ready { t with exec := t.exec.afterFault f }) :
    Ensures I s (do
      return (← attempt (do Action.finish i f; return Turn.ready)).getD .ready : Guarded Turn)
      Q := by
  have hfinish : Ensures I s (Action.finish i f) fun _ => Q .ready :=
    Action.ensures_finish hK hs hend hfollow
  have hinstruction : Ensures I s (do Action.finish i f; return Turn.ready : Action Turn) Q :=
    hfinish.bind fun _ _ ht => ensures_pure ht
  have hattempt := ensures_attempt hI hinstruction (Q := fun v t => Q (v.getD .ready) t)
    (fun _ _ hv => hv) hfault
  exact hattempt.bind fun _ _ ht => ensures_pure ht

/-- What a turn ensures that takes up the instruction `i`. Up to the end of the instruction faults
are met in states with `I`, and from there on, with the flow `f`, in states with `K f`. -/
theorem Guarded.ensures_turn_of_takesUp {K : Flow → Focus → Prop} {Q : Turn → Focus → Prop}
    (hI : Stable o I) (hK : ∀ f, Stable o (K f)) (h : s.TakesUp o i) (hs : I s.counted)
    (hrun : ∀ t, s.Dispatches o i t → I t → Ensures I t (i.run o) fun effect u =>
      match effect with
      | .flow f => K f u
      | .call callee r => Q (.calling i callee r) u
      | .join child => Q (.joining i child) u)
    (hend : s.EndFails o → ∀ f t, K f t → I t)
    (hfollow : ∀ f t, K f t → Q .ready { t with exec := t.exec.follow f })
    (hfault : ∀ f t, I t → Q .ready { t with exec := t.exec.afterFault f }) :
    Ensures I s (turn o) Q := by
  have hbefore := hI.maintains_callHook hs .before i
  -- An instruction that fails is handled, whether the hook in front of it fails or it does.
  have hfailed {e : Abort} {u : Focus} (he : Action.runInstruction o i s.counted = .error e u)
      (hu : I u) : Ensures I s (turn o) Q := by
    have hinstruction : Ensures I s.counted (Action.runInstruction o i) Q :=
      ensures_of_error he hu
    have hattempt := ensures_attempt hI hinstruction (Q := fun v t => Q (v.getD .ready) t)
      (fun _ _ hv => hv) hfault
    unfold Ensures
    rw [turn_of_takesUp h]
    exact hattempt.bind fun _ _ ht => ensures_pure ht
  cases hb : Action.callHook .before i s.counted with
  | error e t => exact hfailed (bind_of_error hb _) (hbefore.of_error hb)
  | ok u t =>
    have hdispatched : s.Dispatches o i t := Focus.dispatches_iff.2 ⟨h, hb⟩
    have heffect := hrun t hdispatched (hbefore.of_ok hb)
    cases hr : i.run o t with
    | error e v =>
      exact hfailed ((bind_of_ok hb _).trans (bind_of_error hr _)) (heffect.of_error hr)
    | ok effect v =>
      have hv := heffect.of_ok hr
      cases effect with
      | call callee r => exact ensures_of_ok (turn_of_call hdispatched hr) hv
      | join child => exact ensures_of_ok (turn_of_join hdispatched hr) hv
      | flow f =>
        unfold Ensures
        rw [turn_of_flow hdispatched hr]
        refine ensures_finishing hI (hK f) hv ?_ (hfollow f) hfault
        intro e w hw
        exact hend ⟨i, t, f, v, e, w, hdispatched, hr, hw⟩ f w

/-- What a turn ensures, whether it takes up an instruction or not. -/
theorem Guarded.ensures_turn {K : Flow → Focus → Prop} {Q : Turn → Focus → Prop}
    (hI : Stable o I) (hK : ∀ f, Stable o (K f))
    (hidle : s.exec.isLive = false ∨ s.world.stopped = true → Q .done s)
    (hlive : s.exec.isLive = true → I s ∧ I s.counted)
    (hrun : ∀ i t, s.Dispatches o i t → I t → Ensures I t (i.run o) fun effect u =>
      match effect with
      | .flow f => K f u
      | .call callee r => Q (.calling i callee r) u
      | .join child => Q (.joining i child) u)
    (hend : s.EndFails o → ∀ f t, K f t → I t)
    (hfollow : ∀ f t, K f t → Q .ready { t with exec := t.exec.follow f })
    (hfault : ∀ f t, I t → Q .ready { t with exec := t.exec.afterFault f }) :
    Ensures I s (turn o) Q := by
  rcases turn_cases o s with ⟨h, hturn⟩ | ⟨h, -, hturn⟩ | ⟨i, h, -⟩
  · exact ensures_of_ok hturn (hidle h)
  · unfold Ensures
    rw [hturn]
    have hhandle := ensures_handle hI.toSteady (hlive h).1
      (.instructionLimitExceeded (o.limit.getD 0)) (Q := fun _ => Q .ready) (hfault _)
    exact hhandle.bind fun _ _ ht => ensures_pure ht
  · exact ensures_turn_of_takesUp hI hK h (hlive h.live).2 (hrun i) hend hfollow hfault

/-- A turn that takes up nothing is done and changes nothing, or halts its executor because that has
reached the limit. -/
theorem Guarded.ensures_turn_of_not_takesUp (hI : Stable o I) (hs : I s)
    (h : ∀ i, ¬s.TakesUp o i) : Ensures I s (turn o) fun turn t =>
      turn = .done ∧ t = s ∨ turn = .ready ∧ s.exec.isLive = true ∧ ∃ u, I u ∧
        t = { u with exec := u.exec.afterFault (.instructionLimitExceeded (o.limit.getD 0)) } := by
  rcases turn_cases o s with ⟨-, hturn⟩ | ⟨hlive, -, hturn⟩ | ⟨i, hi, -⟩
  · exact ensures_of_ok hturn (.inl ⟨rfl, rfl⟩)
  · unfold Ensures
    rw [hturn]
    have hhandle := ensures_handle hI.toSteady hs (.instructionLimitExceeded (o.limit.getD 0))
      (Q := fun _ t => ∃ u, I u ∧
        t = { u with exec := u.exec.afterFault (.instructionLimitExceeded (o.limit.getD 0)) })
      fun t ht => ⟨t, ht, rfl⟩
    exact hhandle.bind fun _ _ ht => ensures_pure (.inr ⟨rfl, hlive, ht⟩)
  · exact absurd hi (h i)

/-! ## Instructions that have waited -/

theorem Guarded.ensures_receive (hI : Stable o I) (hs : I s) (i : Instruction) (r : Reception)
    (outcome : Outcome) {Q : Focus → Prop}
    (hfollow : ∀ t, I t → Q { t with exec := t.exec.follow .next })
    (hfault : ∀ f t, I t → Q { t with exec := t.exec.afterFault f }) :
    Ensures I s (attempt (Action.receive i r outcome)) fun _ => Q := by
  have hfinish (t : Focus) (ht : I t) : Ensures I t (Action.finish i .next) fun _ => Q :=
    Action.ensures_finish hI ht (fun _ _ _ hv => hv) hfollow
  refine ensures_attempt hI (P := fun _ => Q) ?_ (fun _ _ ht => ht) hfault
  cases r with
  | ignore => exact hfinish s hs
  | append failure =>
    refine (hI.maintains_emit hs outcome.output).bind fun _ t ht => ?_
    cases failure with
    | some f => exact ensures_throw ht _
    | none => exact hfinish t ht

theorem Guarded.ensures_receiveJoined (hI : Stable o I) (hs : I s) (i : Instruction)
    (result : Except Panic Outcome) {Q : Focus → Prop}
    (hfollow : ∀ t, I t → Q { t with exec := t.exec.follow .next })
    (hfault : ∀ f t, I t → Q { t with exec := t.exec.afterFault f }) :
    Ensures I s (attempt (Action.receiveJoined i result)) fun _ => Q := by
  refine ensures_attempt hI (P := fun _ => Q) ?_ (fun _ _ ht => ht) hfault
  cases result with
  | error p => exact ensures_throw hs _
  | ok outcome =>
    refine (hI.maintains_emit hs outcome.output).bind fun _ t ht => ?_
    exact Action.ensures_finish hI ht (fun _ _ _ hv => hv) hfollow

end CellMachine
