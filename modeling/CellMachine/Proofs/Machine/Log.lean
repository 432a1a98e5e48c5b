import CellMachine.Proofs.Machine.Limit

/-!
# Logs

This module writes down what an executor does. `Logging.turn` is `Guarded.turn` with an entry at
each place where the loop begins an instruction, dispatches, gets through a dispatch, ends an
instruction or meets a fault, and likewise for an instruction that is taken up again. Without the
entries nothing is different (`erases_turn`). The calls of handlers are not entered by hand: they
are read off the record that the world keeps of them (`Logging.lift`), so that none is missed.

`Stage.Acts` relates the entries of a turn to what the executor does in it, and every turn that
changes its executor is of this kind (`ensures_turn`).
-/

namespace CellMachine

open Stateful

inductive Deed where
  | begins (i : Instruction)
  | calls (c : HookCall)
  | dispatches (i : Instruction)
  | passes  -- the dispatch has not failed
  | ends  -- the instruction is over, and has not failed
  | faults (f : Fault)  -- a fault is met, and is going to be handled

structure Entry where
  deed : Deed
  state : Focus

structure Logged where
  focus : Focus
  log : List Entry := []

abbrev Logging (ε α : Type) := EStateM ε Logged α

/-- Take over what a thread has left behind that was waited for. -/
def Action.acceptJoined (result : Except Panic Outcome) : Action Unit :=
  match result with
  | .ok outcome => emit outcome.output
  | .error p => fail (.join p.message)

theorem Action.receiveJoined_eq (i : Instruction) (result : Except Panic Outcome) :
    receiveJoined i result = (do acceptJoined result; finish i .next) := by
  cases result <;> rfl

def Focus.entries (s : Focus) (calls : List HookCall) : List Entry :=
  calls.map fun c => ⟨.calls c, s⟩

namespace Logging

variable {ε α β : Type}

/-! ## The loop with a log -/

/-- Do what `a` does, and enter the calls that it has put on record. -/
def lift (a : EStateM ε Focus α) : Logging ε α := fun x =>
  let noted (t : Focus) : Logged :=
    ⟨t, x.log ++ x.focus.entries (t.world.calls.drop x.focus.world.calls.length)⟩
  match a x.focus with
  | .ok v t => .ok v (noted t)
  | .error e t => .error e (noted t)

def enter (d : Deed) : Logging ε Unit := modify fun x => { x with log := x.log ++ [⟨d, x.focus⟩] }

def finish (i : Instruction) (f : Flow) : Logging Abort Unit := do
  enter .passes
  lift (Action.callHook .after i)
  lift (Action.modifyExec fun e => e.follow f)
  enter .ends

def runInstruction (o : Options) (i : Instruction) : Logging Abort Turn := do
  lift (Action.callHook .before i)
  enter (.dispatches i)
  match ← lift (i.run o) with
  | .flow f =>
    finish i f
    return .ready
  | .call callee reception => return .calling i callee reception
  | .join child => return .joining i child

/-- Take up an instruction again, after `a` has taken over what it has waited for. -/
def resume (i : Instruction) (a : Action Unit) : Logging Abort Unit := do
  lift a
  finish i .next

def handle (f : Fault) : Logging Panic Unit := do
  enter (.faults f)
  lift (Guarded.handle f)

def attempt (a : Logging Abort α) : Logging Panic (Option α) := fun x =>
  match a x with
  | .ok value x => .ok (some value) x
  | .error (.panic p) x => .error p x
  | .error (.fault f) x =>
    -- What has been entered up to the fault stays entered.
    match handle f x with
    | .ok _ x => .ok none x
    | .error p x => .error p x

def turn (o : Options) : Logging Panic Turn := do
  let s := (← get).focus
  if !s.exec.isLive || s.world.stopped then return .done
  else if s.exec.isExhausted o then
    handle (.instructionLimitExceeded (o.limit.getD 0))
    return .ready
  else
    match s.exec.program.get? s.exec.ip with
    | none => return .done
    | some i =>
      enter (.begins i)
      lift (set s.counted)
      return (← attempt (runInstruction o i)).getD .ready

/-! ## Without the log -/

def erase : EStateM.Result ε Logged α → EStateM.Result ε Focus α
  | .ok v x => .ok v x.focus
  | .error e x => .error e x.focus

/-- Without its log the action `a` is the action `b`. -/
def Erases (a : Logging ε α) (b : EStateM ε Focus α) : Prop := ∀ x, erase (a x) = b x.focus

theorem erases_lift (b : EStateM ε Focus α) : Erases (lift b) b := by
  intro x
  unfold lift
  cases h : b x.focus <;> rfl

theorem erases_enter (d : Deed) : Erases (enter d : Logging ε Unit) (pure ()) :=
  fun _ => rfl

theorem erases_pure (v : α) : Erases (pure v : Logging ε α) (pure v) :=
  fun _ => rfl

theorem Erases.bind {a : Logging ε α} {b : EStateM ε Focus α} {k : α → Logging ε β}
    {j : α → EStateM ε Focus β} (h : Erases a b) (hk : ∀ v, Erases (k v) (j v)) :
    Erases (a >>= k) (b >>= j) := by
  intro x
  have hx := h x
  cases ha : a x with
  | ok v y =>
    rw [ha] at hx
    rw [bind_of_ok ha, bind_of_ok hx.symm]
    exact hk v y
  | error e y =>
    rw [ha] at hx
    rw [bind_of_error ha, bind_of_error hx.symm]
    rfl

/-- What is entered first does not show. -/
theorem Erases.enter {d : Deed} {k : Unit → Logging ε β} {b : EStateM ε Focus β}
    (h : Erases (k ()) b) : Erases (Logging.enter d >>= k) b :=
  (erases_enter d).bind fun _ => h

theorem erases_finish (i : Instruction) (f : Flow) : Erases (finish i f) (Action.finish i f) :=
  Erases.enter ((erases_lift (Action.callHook .after i)).bind fun _ =>
    (erases_lift (Action.modifyExec fun e => e.follow f)).bind fun _ => erases_enter .ends)

theorem erases_runInstruction (o : Options) (i : Instruction) :
    Erases (runInstruction o i) (Action.runInstruction o i) := by
  refine (erases_lift _).bind fun _ => Erases.enter ((erases_lift _).bind fun effect => ?_)
  cases effect with
  | flow f => exact (erases_finish i f).bind fun _ => erases_pure _
  | call callee r => exact erases_pure _
  | join child => exact erases_pure _

theorem erases_receive (i : Instruction) (r : Reception) (outcome : Outcome) :
    Erases (resume i (r.accept outcome)) (Action.receive i r outcome) := by
  rw [Action.receive_eq]
  exact (erases_lift _).bind fun _ => erases_finish i .next

theorem erases_receiveJoined (i : Instruction) (result : Except Panic Outcome) :
    Erases (resume i (Action.acceptJoined result)) (Action.receiveJoined i result) := by
  rw [Action.receiveJoined_eq]
  exact (erases_lift _).bind fun _ => erases_finish i .next

theorem erases_handle (f : Fault) : Erases (handle f) (Guarded.handle f) :=
  (erases_lift _).enter

theorem Erases.attempt {a : Logging Abort α} {b : Action α} (h : Erases a b) :
    Erases (Logging.attempt a) (Guarded.attempt b) := by
  intro x
  have hx := h x
  unfold Logging.attempt Guarded.attempt
  rw [← hx]
  cases a x with
  | ok v y => rfl
  | error e y =>
    cases e with
    | panic p => rfl
    | fault f =>
      -- The fault is handled in the same state.
      have hy := erases_handle f y
      dsimp only [erase]
      rw [← hy]
      cases Logging.handle f y <;> rfl

theorem erases_turn (o : Options) : Erases (turn o) (Guarded.turn o) := by
  intro x
  unfold turn Guarded.turn
  rw [get_bind, get_bind]
  split
  · rfl
  · split
    · exact ((erases_handle _).bind fun _ => erases_pure _) x
    · cases x.focus.exec.program.get? x.focus.exec.ip with
      | none => rfl
      | some i =>
        have hrun := (erases_runInstruction o i).attempt.bind fun v => erases_pure (v.getD .ready)
        exact (Erases.enter (d := .begins i) ((erases_lift _).bind fun _ => hrun)) x

def entries (a : Logging ε α) (s : Focus) : List Entry :=
  match a ⟨s, []⟩ with
  | .ok _ x | .error _ x => x.log

theorem Erases.eq_ok {a : Logging ε α} {b : EStateM ε Focus α} (h : Erases a b) {s t : Focus}
    {v : α} (hb : b s = .ok v t) : a ⟨s, []⟩ = .ok v ⟨t, entries a s⟩ := by
  have hs := h ⟨s, []⟩
  unfold entries
  cases ha : a ⟨s, []⟩ with
  | ok w x =>
    rw [ha, hb] at hs
    cases hs
    rfl
  | error e x =>
    rw [ha, hb] at hs
    cases hs

theorem Erases.eq_error {a : Logging ε α} {b : EStateM ε Focus α} (h : Erases a b) {s t : Focus}
    {e : ε} (hb : b s = .error e t) : a ⟨s, []⟩ = .error e ⟨t, entries a s⟩ := by
  have hs := h ⟨s, []⟩
  unfold entries
  cases ha : a ⟨s, []⟩ with
  | ok w x =>
    rw [ha, hb] at hs
    cases hs
  | error e x =>
    rw [ha, hb] at hs
    cases hs
    rfl

end Logging

/-! ## Calls -/

def Handler.verdict (h : Handler) (hook : Hook) (c : Call) (s : Focus) : Option Fault :=
  match (h.hook hook c).perform s with
  | .ok _ _ => none
  | .error e _ => some (h.failure e)

/-- The call of a hook about an instruction, as it is put on record. -/
def Handler.hookCall (h : Handler) (hook : Hook) (i : Instruction) (s : Focus) : HookCall :=
  ⟨h, hook, i.call s, h.verdict hook (i.call s) s⟩

/-- The calls of a hook: one if a handler is bound to the active namespace. -/
def Focus.called (s : Focus) (hook : Hook) (i : Instruction) : List HookCall :=
  match s.world.table.handler? s.exec.active with
  | some h => [h.hookCall hook i s]
  | none => []

/-- The calls of a dispatch: one if the instruction is not native, and the handler that is bound to
the active namespace claims it. -/
def Focus.routed (s : Focus) (i : Instruction) : List HookCall :=
  match Opcode.ofCode? i.opcode, s.world.table.handler? s.exec.active with
  | none, some h => if h.claims i.opcode then [h.hookCall .handle i s] else []
  | _, _ => []

/-- Whether the action `a` fails in the state `s` or not, it puts the calls `c` on record and no
others. -/
def Focus.Makes {ε α : Type} (s : Focus) (a : EStateM ε Focus α) (c : List HookCall) : Prop :=
  Maintains (fun t => t.world.calls = s.world.calls ++ c) s a

section

variable (s : Focus)

theorem Focus.makes_nil {ε α : Type} {a : EStateM ε Focus α}
    (h : Maintains (fun t => t.world.calls = s.world.calls) s a) : s.Makes a [] :=
  h.mono (fun _ ht => ht.trans (List.append_nil _).symm)
    fun _ _ ht => ht.trans (List.append_nil _).symm

theorem Handler.makes_call (h : Handler) (hook : Hook) (i : Instruction) :
    s.Makes (h.call hook i) [h.hookCall hook i s] := by
  -- What the handler asks for is no call, and the call itself is put on record behind it.
  have hperform := (steady_calls {} s.world.calls).maintains_perform rfl (h.hook hook (i.call s))
  unfold hookCall verdict
  cases hrun : (h.hook hook (i.call s)).perform s with
  | ok v t =>
    refine ensures_of_ok (h.call_of_ok hrun) ?_
    exact congrArg (· ++ [_]) (hperform.of_ok hrun)
  | error e t =>
    refine ensures_of_error (h.call_of_error hrun) ?_
    exact congrArg (· ++ [_]) (hperform.of_error hrun)

theorem Action.makes_callHook (hook : Hook) (i : Instruction) :
    s.Makes (callHook hook i) (s.called hook i) := by
  unfold Focus.called
  have hhandler : handler? s = .ok (s.world.table.handler? s.exec.active) s := rfl
  have hrun : callHook hook i s = _ := bind_of_ok hhandler _
  unfold Focus.Makes Maintains Ensures
  rw [hrun]
  cases s.world.table.handler? s.exec.active with
  | some h => exact h.makes_call s hook i
  | none => exact (List.append_nil _).symm

/-- A handler is called for an instruction that it claims, unless the instruction is native. -/
theorem Instruction.makes_run (o : Options) (i : Instruction) : s.Makes (i.run o) (s.routed i) := by
  unfold Instruction.run Focus.routed
  cases Opcode.ofCode? i.opcode with
  | some op => exact s.makes_nil (op.calls_run o i s)
  | none =>
    have hhandler : Action.handler? s = .ok (s.world.table.handler? s.exec.active) s := rfl
    have hrun : Action.callExtension i s = _ := bind_of_ok hhandler _
    refine Ensures.bind (P := fun _ t => t.world.calls = s.world.calls ++ _) ?_
      fun _ _ ht => ensures_pure ht
    unfold Ensures
    rw [hrun]
    cases s.world.table.handler? s.exec.active with
    | none => exact (List.append_nil _).symm
    | some h =>
      cases hclaims : h.claims i.opcode with
      | false =>
        simp only [hclaims, Bool.false_eq_true, if_false]
        exact (List.append_nil _).symm
      | true =>
        simp only [hclaims, if_true]
        exact (h.makes_call s .handle i).return fun _ ht => ht

theorem Guarded.makes_handle (f : Fault) : s.Makes (handle f) [] :=
  s.makes_nil (ensures_handle (steady_calls {} s.world.calls) rfl f fun _ ht => ht)

end

/-! ## What is entered -/

/-- The call of a hook, if a handler is bound to the active namespace. -/
def Focus.calls (s : Focus) (hook : Hook) (i : Instruction) : List Entry :=
  s.entries (s.called hook i)

/-- The call of the handler that is bound to the active namespace about an instruction that is not
native and that it claims. -/
def Focus.routes (s : Focus) (i : Instruction) : List Entry := s.entries (s.routed i)

def Focus.prelude (s : Focus) (i : Instruction) : List Entry :=
  ⟨.begins i, s⟩ :: s.counted.calls .before i

/-- What is entered about an instruction that is dispatched in the state `t`, up to its dispatch. -/
def Focus.opening (s : Focus) (i : Instruction) (t : Focus) : List Entry :=
  s.prelude i ++ ⟨.dispatches i, t⟩ :: t.routes i

/-- The state after a fault, if the sink takes what is printed about it. -/
def Focus.handled (s : Focus) (f : Fault) : Focus where
  world := { s.world with sink := s.world.sink.map fun k =>
    if s.exec.mode.displays then { k with lines := k.lines ++ [s.exec.diagnostic f] } else k }
  exec := s.exec.marked.afterFault f

inductive Wait where
  | call (r : Reception)
  | join

/-- What an instruction that comes to this effect waits for. -/
def Effect.wait? : Effect → Option Wait
  | .flow _ => none
  | .call _ r => some (.call r)
  | .join _ => some .join

/-- The action takes over what has been waited for. -/
def Wait.Accepts : Wait → Action Unit → Prop
  | call r, a => ∃ outcome, a = r.accept outcome
  | join, a => ∃ result, a = Action.acceptJoined result

/-- What an action comes to, other than a panic. -/
def Action.ComesTo {α : Type} (a : Action α) (s : Focus) (result : Except Fault α) (t : Focus) :
    Prop :=
  match result with
  | .ok v => a s = .ok v t
  | .error f => a s = .error (.fault f) t

theorem Action.ComesTo.maintained {α : Type} {I : Focus → Prop} {a : Action α} {s t : Focus}
    {result : Except Fault α} (h : a.ComesTo s result t) (ha : Maintains I s a) : I t := by
  cases result with
  | ok v => exact ha.of_ok h
  | error f => exact ha.of_error h

/-- How the instruction `i` is brought to its end when its dispatch has the result and leads to the
state `u`. -/
inductive Conclusion (i : Instruction) : Except Fault Flow → (u : Focus) → List Entry → Focus → Prop
  | failed {f : Fault} {u : Focus} : Conclusion i (.error f) u [⟨.faults f, u⟩] (u.handled f)
  -- The hook behind the instruction fails.
  | refused {f : Flow} {u v : Focus} {g : Fault} :
    Action.callHook .after i u = .error (.fault g) v →
      Conclusion i (.ok f) u (⟨.passes, u⟩ :: u.calls .after i ++ [⟨.faults g, v⟩]) (v.handled g)
  | ended {f : Flow} {u v : Focus} : Action.callHook .after i u = .ok () v →
      Conclusion i (.ok f) u
        (⟨.passes, u⟩ :: u.calls .after i ++ [⟨.ends, { v with exec := v.exec.follow f }⟩])
        { v with exec := v.exec.follow f }

/-- An executor in the world, with the instruction that it is within, if it waits. -/
structure Stage where
  focus : Focus
  within : Option (Instruction × Wait) := none

inductive Stage.Acts (o : Options) : Stage → List Entry → Stage → Prop
  -- The limit is reached.
  | cutOff {s : Focus} : s.exec.isLive = true → s.world.stopped = false →
      s.exec.isExhausted o = true →
      Acts o ⟨s, none⟩ [⟨.faults (.instructionLimitExceeded (o.limit.getD 0)), s⟩]
        ⟨s.handled (.instructionLimitExceeded (o.limit.getD 0)), none⟩
  -- The hook in front of the instruction fails.
  | refused {s t : Focus} {i : Instruction} {f : Fault} : s.TakesUp o i →
      Action.callHook .before i s.counted = .error (.fault f) t →
      Acts o ⟨s, none⟩ (s.prelude i ++ [⟨.faults f, t⟩]) ⟨t.handled f, none⟩
  -- The instruction is dispatched and over.
  | finished {s t u v : Focus} {i : Instruction} {result : Except Fault Flow} {l : List Entry} :
      s.Dispatches o i t → (i.run o).ComesTo t (result.map .flow) u → Conclusion i result u l v →
      Acts o ⟨s, none⟩ (s.opening i t ++ l) ⟨v, none⟩
  -- The instruction is dispatched and waits.
  | waits {s t u : Focus} {i : Instruction} {effect : Effect} {w : Wait} :
      s.Dispatches o i t → i.run o t = .ok effect u → effect.wait? = some w →
      Acts o ⟨s, none⟩ (s.opening i t) ⟨u, some (i, w)⟩
  -- The instruction has waited and is over.
  | resumed {s u v : Focus} {i : Instruction} {w : Wait} {a : Action Unit} {clock : Nat}
      {result : Except Fault Unit} {l : List Entry} :
      w.Accepts a → a.ComesTo { s with exec.clock := clock } result u →
      Conclusion i (result.map fun _ => .next) u l v →
      Acts o ⟨s, some (i, w)⟩ l ⟨v, none⟩

variable {o : Options} {s t u : Focus} {i : Instruction} {f : Fault}

/-- A turn ends in a panic: either within the instruction that has been dispatched, or with all that
is to be done entered. -/
def Stage.Breaks (o : Options) (a : Stage) (l : List Entry) : Prop :=
  (∃ b, a.Acts o l b) ∨
    ∃ i t p u, a.within = none ∧ a.focus.Dispatches o i t ∧ i.run o t = .error (.panic p) u ∧
      l = a.focus.opening i t

theorem Stage.Acts.breaks {a b : Stage} {c l : List Entry} (h : a.Acts o c b) (hl : l = c) :
    a.Breaks o l := by
  subst hl
  exact .inl ⟨b, h⟩

namespace Guarded

theorem eq_of_print {text : String} (h : print text s = .ok () t) :
    t = { s with world.sink := s.world.sink.map fun k =>
      { k with lines := k.lines ++ [text] } } := by
  rcases s with ⟨w, e⟩
  rcases w with ⟨table, host, primary, bundle, input, _ | k, stopped, arrivals⟩
  · cases h
    rfl
  · unfold print at h
    rw [get_bind] at h
    by_cases hrefuses : k.refuses = some text
    · simp only [Sink.write, if_pos hrefuses] at h
      cases h
    · simp only [Sink.write, if_neg hrefuses] at h
      cases h
      rfl

theorem eq_of_handle (h : handle f s = .ok () t) : t = s.handled f := by
  unfold Focus.handled Executor.marked
  cases hdisplays : s.exec.mode.displays with
  | false =>
    have hmove : handle f s = .ok () { s with exec := s.exec.afterFault f } := by
      rw [handle, get_bind, hdisplays]
      rfl
    cases hmove.symm.trans h
    simp
  | true =>
    -- The mark comes first, then the print, and then the executor goes on.
    have hprint : handle f s = (do
        print (s.exec.diagnostic f)
        modify fun s => { s with exec := s.exec.afterFault f } : Guarded Unit)
          { s with exec.output := s.exec.output ++ errorMarker } := by
      rw [handle, get_bind, hdisplays]
      rfl
    rcases bind_eq_ok_iff.1 (hprint.symm.trans h) with ⟨_, t', hprinted, hmove⟩
    cases eq_of_print hprinted
    cases hmove
    rfl

end Guarded

theorem Handler.exists_fault_of_call {h : Handler} {hook : Hook} {e : Abort}
    (hcall : h.call hook i s = .error e t) : ∃ f, e = .fault f := by
  unfold Handler.call at hcall
  split at hcall <;> cases hcall
  exact ⟨_, rfl⟩

/-- A hook that fails fails with a fault, whatever the handler has done. -/
theorem Action.exists_fault_of_callHook {hook : Hook} {e : Abort}
    (h : callHook hook i s = .error e t) : ∃ f, e = .fault f := by
  rcases bind_eq_error_iff.1 h with hread | ⟨handler, s', -, h⟩
  · cases hread
  · cases handler with
    | none => cases h
    | some handler => exact Handler.exists_fault_of_call (h := handler) h

theorem Wait.Accepts.exists_fault {w : Wait} {a : Action Unit} (ha : w.Accepts a) {e : Abort}
    (h : a s = .error e t) : ∃ f, e = .fault f := by
  cases w with
  | call r =>
    rcases ha with ⟨outcome, rfl⟩
    rcases r with _ | _ | f
    · cases h
    · cases h
    · cases h
      exact ⟨f, rfl⟩
  | join =>
    rcases ha with ⟨outcome | p, rfl⟩
    · cases h
      exact ⟨_, rfl⟩
    · cases h

theorem Wait.Accepts.maintains {I : Focus → Prop} {w : Wait} {a : Action Unit} (ha : w.Accepts a)
    (hI : Steady o I) (hs : I s) : Maintains I s a := by
  cases w with
  | call r =>
    rcases ha with ⟨outcome, rfl⟩
    cases r with
    | ignore => exact ensures_pure hs
    | append failure =>
      refine (hI.maintains_emit hs outcome.output).bind fun _ t ht => ?_
      cases failure with
      | some f => exact ensures_throw ht _
      | none => exact ensures_pure ht
  | join =>
    rcases ha with ⟨outcome | p, rfl⟩
    · exact ensures_throw hs _
    · exact hI.maintains_emit hs _

theorem Conclusion.ne_nil {result : Except Fault Flow} {v : Focus} {l : List Entry}
    (h : Conclusion i result u l v) :
    l ≠ [] := by
  cases h <;> exact List.cons_ne_nil _ _

theorem Stage.Acts.ne_nil {a b : Stage} {l : List Entry} (h : a.Acts o l b) : l ≠ [] := by
  cases h with
  | cutOff _ _ _ | waits _ _ _ => exact List.cons_ne_nil _ _
  | refused _ _ | finished _ _ _ =>
    exact List.append_ne_nil_of_left_ne_nil (List.cons_ne_nil _ _) _
  | resumed _ _ hend => exact hend.ne_nil

namespace Logging

variable {ε α : Type} {x : Logged} {l : List Entry}

theorem lift_of_ok {a : EStateM ε Focus α} {v : α} {c : List HookCall} (hc : s.Makes a c)
    (h : a s = .ok v t) (l : List Entry) : lift a ⟨s, l⟩ = .ok v ⟨t, l ++ s.entries c⟩ := by
  simp only [lift, h, hc.of_ok h, List.drop_left]

theorem lift_of_error {a : EStateM ε Focus α} {e : ε} {c : List HookCall} (hc : s.Makes a c)
    (h : a s = .error e t) (l : List Entry) :
    lift a ⟨s, l⟩ = .error e ⟨t, l ++ s.entries c⟩ := by
  simp only [lift, h, hc.of_error h, List.drop_left]

/-- What makes no calls enters none. -/
theorem lift_quiet_of_ok {a : EStateM ε Focus α} {v : α} (hc : s.Makes a []) (h : a s = .ok v t)
    (l : List Entry) : lift a ⟨s, l⟩ = .ok v ⟨t, l⟩ := by
  rw [lift_of_ok hc h, Focus.entries, List.map_nil, List.append_nil]

theorem lift_quiet_of_error {a : EStateM ε Focus α} {e : ε} (hc : s.Makes a [])
    (h : a s = .error e t) (l : List Entry) : lift a ⟨s, l⟩ = .error e ⟨t, l⟩ := by
  rw [lift_of_error hc h, Focus.entries, List.map_nil, List.append_nil]

theorem lift_modifyExec (g : Executor → Executor) (s : Focus) (l : List Entry) :
    lift (Action.modifyExec g) ⟨s, l⟩ = .ok () ⟨{ s with exec := g s.exec }, l⟩ :=
  lift_quiet_of_ok (s.makes_nil (ensures_modify rfl)) rfl l

theorem lift_counted (s : Focus) (l : List Entry) :
    lift (set s.counted : Guarded PUnit) ⟨s, l⟩ = .ok ⟨⟩ ⟨s.counted, l⟩ := by
  have hset : (set s.counted : Guarded PUnit) s = .ok ⟨⟩ s.counted := rfl
  exact lift_quiet_of_ok (s.makes_nil (ensures_of_ok hset rfl)) hset l

/-! ## The end of an instruction -/

theorem finish_of_ok (h : Action.callHook .after i s = .ok () t) (f : Flow) (l : List Entry) :
    finish i f ⟨s, l⟩ = .ok () ⟨{ t with exec := t.exec.follow f },
      l ++ (⟨.passes, s⟩ :: s.calls .after i ++
        [⟨.ends, { t with exec := t.exec.follow f }⟩])⟩ := by
  have hhook := lift_of_ok (Action.makes_callHook s .after i) h (l ++ [⟨.passes, s⟩])
  have hmove := lift_modifyExec (fun e => e.follow f) t
    (l ++ [⟨.passes, s⟩] ++ s.calls .after i)
  have hlog (x : Entry) : l ++ (⟨.passes, s⟩ :: s.calls .after i ++ [x]) =
      l ++ [⟨.passes, s⟩] ++ s.calls .after i ++ [x] := by
    simp
  rw [hlog]
  exact (bind_of_ok hhook _).trans (bind_of_ok hmove _)

theorem finish_of_error {e : Abort} (h : Action.callHook .after i s = .error e t) (f : Flow)
    (l : List Entry) :
    finish i f ⟨s, l⟩ = .error e ⟨t, l ++ (⟨.passes, s⟩ :: s.calls .after i)⟩ := by
  have hhook := lift_of_error (Action.makes_callHook s .after i) h (l ++ [⟨.passes, s⟩])
  rw [List.append_assoc, List.singleton_append] at hhook
  exact bind_of_error hhook _

theorem ensures_handle (f : Fault) (s : Focus) (l : List Entry) :
    Ensures (fun x => x.log = l ++ [⟨.faults f, s⟩]) ⟨s, l⟩ (handle f) fun _ x =>
      x = ⟨s.handled f, l ++ [⟨.faults f, s⟩]⟩ := by
  have henter : handle f ⟨s, l⟩ = lift (Guarded.handle f) ⟨s, l ++ [⟨.faults f, s⟩]⟩ := rfl
  unfold Ensures
  rw [henter]
  cases h : Guarded.handle f s with
  | ok v t =>
    rw [lift_quiet_of_ok (Guarded.makes_handle s f) h, Guarded.eq_of_handle h]
  | error p t => rw [lift_quiet_of_error (Guarded.makes_handle s f) h]

theorem ensures_attempt_of_fault {a : Logging Abort α} {b : Stage}
    (h : a x = .error (.fault f) ⟨s, l⟩)
    (hacts : b.Acts o (l ++ [⟨.faults f, s⟩]) ⟨s.handled f, none⟩) :
    Ensures (fun y => b.Breaks o y.log) x (attempt a) fun r y =>
      r = none ∧ b.Acts o y.log ⟨y.focus, none⟩ := by
  have hhandle := ensures_handle f s l
  unfold attempt
  cases hf : handle f ⟨s, l⟩ with
  | ok v y =>
    cases hhandle.of_ok hf
    refine ensures_of_ok (v := none) (t := ⟨s.handled f, l ++ [⟨.faults f, s⟩]⟩) ?_ ⟨rfl, hacts⟩
    simp only [h, hf]
  | error p y =>
    refine ensures_of_error (e := p) (t := y) ?_ (hacts.breaks (hhandle.of_error hf))
    simp only [h, hf]

/-- An attempt that gets as far as the end of an instruction brings it to its conclusion. -/
theorem ensures_attempt_of_finish {a : Logging Abort α} {w : α} {g : Flow} {b : Stage}
    (h : a x = (do finish i g; return w : Logging Abort α) ⟨u, l⟩)
    (hacts : ∀ c v, Conclusion i (.ok g) u c v → b.Acts o (l ++ c) ⟨v, none⟩) :
    Ensures (fun y => b.Breaks o y.log) x (attempt a) fun r y =>
      (r = some w ∨ r = none) ∧ b.Acts o y.log ⟨y.focus, none⟩ := by
  cases hhook : Action.callHook .after i u with
  | ok v t =>
    rw [bind_of_ok (finish_of_ok hhook g l)] at h
    unfold Ensures attempt
    rw [h]
    exact ⟨.inl rfl, hacts _ _ (.ended hhook)⟩
  | error e t =>
    rcases Action.exists_fault_of_callHook hhook with ⟨f, rfl⟩
    rw [bind_of_error (finish_of_error hhook g l)] at h
    have hrefused := hacts _ _ (.refused hhook)
    rw [← List.append_assoc] at hrefused
    exact (ensures_attempt_of_fault h hrefused).imp fun _ _ hy => ⟨.inr hy.1, hy.2⟩

end Logging

/-! ## Turns -/

/-- How a turn that starts in the state `s` leaves the executor. -/
def Turn.Leaves (o : Options) (s : Focus) (x : Logged) : Turn → Prop
  | .ready => Stage.Acts o ⟨s, none⟩ x.log ⟨x.focus, none⟩
  | .calling i _ r => Stage.Acts o ⟨s, none⟩ x.log ⟨x.focus, some (i, .call r)⟩
  | .joining i _ => Stage.Acts o ⟨s, none⟩ x.log ⟨x.focus, some (i, .join)⟩
  | .done => (s.exec.isLive = false ∨ s.world.stopped = true) ∧ x = ⟨s, []⟩

namespace Logging

theorem turn_cases (o : Options) (s : Focus) :
    ((s.exec.isLive = false ∨ s.world.stopped = true) ∧ turn o ⟨s, []⟩ = .ok .done ⟨s, []⟩) ∨
      (s.exec.isLive = true ∧ s.world.stopped = false ∧ s.exec.isExhausted o = true ∧
        turn o ⟨s, []⟩ =
          (do handle (.instructionLimitExceeded (o.limit.getD 0)); return .ready :
            Logging Panic Turn) ⟨s, []⟩) ∨
      ∃ i, s.TakesUp o i ∧ turn o ⟨s, []⟩ =
        (do return (← attempt (runInstruction o i)).getD .ready : Logging Panic Turn)
          ⟨s.counted, [⟨.begins i, s⟩]⟩ := by
  unfold turn
  rw [get_bind]
  dsimp only
  cases hlive : s.exec.isLive with
  | false => exact .inl ⟨.inl rfl, rfl⟩
  | true =>
    cases hstopped : s.world.stopped with
    | true => exact .inl ⟨.inr rfl, rfl⟩
    | false =>
      cases hexhausted : s.exec.isExhausted o with
      | true => exact .inr (.inl ⟨rfl, rfl, rfl, rfl⟩)
      | false =>
        have hstarts : s.starts o = true := by simp [Focus.starts, hlive, hstopped, hexhausted]
        rcases Focus.exists_takesUp_of_starts hstarts with ⟨i, hi⟩
        rw [hi.instruction]
        refine .inr (.inr ⟨i, hi, ?_⟩)
        have hset := lift_counted s [⟨.begins i, s⟩]
        have henter : (enter (.begins i) : Logging Panic Unit) ⟨s, []⟩ =
            .ok () ⟨s, [⟨.begins i, s⟩]⟩ := rfl
        exact (bind_of_ok henter _).trans (bind_of_ok hset _)

theorem ensures_attempt_runInstruction (h : s.TakesUp o i) :
    Ensures (fun x => Stage.Breaks o ⟨s, none⟩ x.log) ⟨s.counted, [⟨.begins i, s⟩]⟩
      (attempt (runInstruction o i)) fun turn x => (turn.getD .ready).Leaves o s x := by
  have hready {r : Option Turn} {x : Logged} (hr : r = some .ready ∨ r = none)
      (hacts : Stage.Acts o ⟨s, none⟩ x.log ⟨x.focus, none⟩) : (r.getD .ready).Leaves o s x := by
    rcases hr with rfl | rfl <;> exact hacts
  -- The attempt goes as far as the first of its steps that fails: the hook in front, the dispatch,
  -- or the end of the instruction.
  have hhook := Action.makes_callHook s.counted .before i
  cases hbefore : Action.callHook .before i s.counted with
  | error e t =>
    rcases Action.exists_fault_of_callHook hbefore with ⟨f, rfl⟩
    have hfailed : runInstruction o i ⟨s.counted, [⟨.begins i, s⟩]⟩ = .error (.fault f)
        ⟨t, s.prelude i⟩ := bind_of_error (lift_of_error hhook hbefore _) _
    have hfault := ensures_attempt_of_fault hfailed (.refused h hbefore)
    exact hfault.imp fun _ _ hy => hready (.inr hy.1) hy.2
  | ok v t =>
    have hd : s.Dispatches o i t := Focus.dispatches_iff.2 ⟨h, hbefore⟩
    have hroutes := Instruction.makes_run t o i
    -- The dispatch is entered first, and then the calls that it makes.
    have hlog : s.prelude i ++ [⟨.dispatches i, t⟩] ++ t.routes i = s.opening i t := by
      simp [Focus.opening]
    cases hrun : i.run o t with
    | error e u =>
      have hdispatch := lift_of_error hroutes hrun (s.prelude i ++ [⟨.dispatches i, t⟩])
      have hfailed : runInstruction o i ⟨s.counted, [⟨.begins i, s⟩]⟩ =
          .error e ⟨u, s.opening i t⟩ :=
        hlog ▸ (bind_of_ok (lift_of_ok hhook hbefore _) _).trans (bind_of_error hdispatch _)
      cases e with
      | fault f =>
        have hcomes : (i.run o).ComesTo t ((Except.error f : Except Fault Flow).map .flow) u := hrun
        have hfault := ensures_attempt_of_fault hfailed (.finished hd hcomes .failed)
        exact hfault.imp fun _ _ hy => hready (.inr hy.1) hy.2
      | panic p =>
        -- The panic ends the attempt where it is.
        unfold Ensures attempt
        rw [hfailed]
        exact .inr ⟨i, t, p, u, rfl, hd, hrun, rfl⟩
    | ok effect u =>
      have hdispatch := lift_of_ok hroutes hrun (s.prelude i ++ [⟨.dispatches i, t⟩])
      -- The instruction goes on with its effect.
      have hpassed (k : Effect → Logging Abort Turn) :
          (do lift (Action.callHook .before i); enter (.dispatches i); k (← lift (i.run o)))
            ⟨s.counted, [⟨.begins i, s⟩]⟩ = k effect ⟨u, s.opening i t⟩ :=
        hlog ▸ (bind_of_ok (lift_of_ok hhook hbefore _) _).trans (bind_of_ok hdispatch _)
      cases effect with
      | flow f =>
        have hcomes : (i.run o).ComesTo t ((Except.ok f : Except Fault Flow).map .flow) u := hrun
        have hfinish : runInstruction o i ⟨s.counted, [⟨.begins i, s⟩]⟩ =
            (do finish i f; return .ready : Logging Abort Turn) ⟨u, s.opening i t⟩ := hpassed _
        have hend := ensures_attempt_of_finish hfinish fun _ _ hc => .finished hd hcomes hc
        exact hend.imp fun _ _ hy => hready hy.1 hy.2
      | call callee r =>
        unfold Ensures attempt runInstruction
        rw [hpassed]
        exact Stage.Acts.waits hd hrun rfl
      | join child =>
        unfold Ensures attempt runInstruction
        rw [hpassed]
        exact Stage.Acts.waits hd hrun rfl

/-- What a turn enters is what it does. -/
theorem ensures_turn (o : Options) (s : Focus) :
    Ensures (fun x => Stage.Breaks o ⟨s, none⟩ x.log) ⟨s, []⟩ (turn o) fun turn x =>
      turn.Leaves o s x := by
  unfold Ensures
  rcases turn_cases o s with ⟨hidle, hturn⟩ | ⟨hlive, hstopped, hexhausted, hturn⟩ | ⟨i, hi, hturn⟩
  · rw [hturn]
    exact ⟨hidle, rfl⟩
  · rw [hturn]
    have hacts := Stage.Acts.cutOff hlive hstopped hexhausted
    have hhandle := ensures_handle (.instructionLimitExceeded (o.limit.getD 0)) s []
    refine (hhandle.mono ?_ fun _ _ hx => hx).bind ?_
    · intro x hx
      exact hacts.breaks hx
    · rintro _ x rfl
      exact ensures_pure hacts
  · rw [hturn]
    exact (ensures_attempt_runInstruction hi).bind fun _ _ hx => ensures_pure hx

theorem leaves_of_turn {turn : Turn} (h : Guarded.turn o s = .ok turn t) :
    turn.Leaves o s ⟨t, entries (Logging.turn o) s⟩ :=
  (ensures_turn o s).of_ok ((erases_turn o).eq_ok h)

theorem breaks_of_turn {p : Panic} (h : Guarded.turn o s = .error p t) :
    Stage.Breaks o ⟨s, none⟩ (entries (turn o) s) :=
  (ensures_turn o s).of_error ((erases_turn o).eq_error h)

theorem ensures_resume {w : Wait} {a : Action Unit} (o : Options) (ha : w.Accepts a) (s : Focus)
    (i : Instruction) (clock : Nat) :
    Ensures (fun x => Stage.Breaks o ⟨s, some (i, w)⟩ x.log) ⟨{ s with exec.clock := clock }, []⟩
      (attempt (resume i a)) fun _ x => Stage.Acts o ⟨s, some (i, w)⟩ x.log ⟨x.focus, none⟩ := by
  have hquiet : ({ s with exec.clock := clock } : Focus).Makes a [] :=
    Focus.makes_nil _ (ha.maintains (steady_calls {} s.world.calls) rfl)
  cases h : a { s with exec.clock := clock } with
  | error e u =>
    -- The instruction ends as if its dispatch had failed.
    rcases ha.exists_fault h with ⟨f, rfl⟩
    have hcomes : a.ComesTo { s with exec.clock := clock } (.error f) u := h
    have hfailed : resume i a ⟨{ s with exec.clock := clock }, []⟩ = .error (.fault f) ⟨u, []⟩ :=
      bind_of_error (lift_quiet_of_error hquiet h []) _
    have hacts : Stage.Acts o ⟨s, some (i, w)⟩ _ _ := .resumed ha hcomes .failed
    exact (ensures_attempt_of_fault hfailed hacts).imp fun _ _ hy => hy.2
  | ok v u =>
    have hcomes : a.ComesTo { s with exec.clock := clock } (.ok v) u := h
    have hfinish : resume i a ⟨{ s with exec.clock := clock }, []⟩ =
        (do finish i .next; return () : Logging Abort Unit) ⟨u, []⟩ := by
      rw [bind_pure_unit]
      exact bind_of_ok (lift_quiet_of_ok hquiet h []) _
    have hacts (c : List Entry) (v : Focus) (hc : Conclusion i (.ok .next) u c v) :
        Stage.Acts o ⟨s, some (i, w)⟩ ([] ++ c) ⟨v, none⟩ := .resumed ha hcomes hc
    exact (ensures_attempt_of_finish hfinish hacts).imp fun _ _ hy => hy.2

/-! ## Calls that are made -/

end Logging

def Entry.call? (x : Entry) : Option HookCall :=
  match x.deed with
  | .calls c => some c
  | _ => none

/-- All calls that have been put on record since it was `calls` have been entered. -/
def Logged.Records (calls : List HookCall) (x : Logged) : Prop :=
  x.focus.world.calls = calls ++ x.log.filterMap Entry.call?

namespace Logging

variable {ε α : Type} {x : Logged} {calls : List HookCall}

theorem maintains_lift {a : EStateM ε Focus α} {c : List HookCall} (hc : x.focus.Makes a c)
    (hx : x.Records calls) : Maintains (Logged.Records calls) x (lift a) := by
  rcases x with ⟨s, l⟩
  have hrecords {t : Focus} (ht : t.world.calls = s.world.calls ++ c) :
      Logged.Records calls ⟨t, l ++ s.entries c⟩ :=
    calc t.world.calls
        = calls ++ l.filterMap Entry.call? ++ c := by rw [ht, show s.world.calls = _ from hx]
      _ = calls ++ (l ++ s.entries c).filterMap Entry.call? := by
        simp [Focus.entries, List.filterMap_map, Function.comp_def, Entry.call?]
  cases h : a s with
  | ok v t => exact ensures_of_ok (lift_of_ok hc h l) (hrecords (hc.of_ok h))
  | error e t => exact ensures_of_error (lift_of_error hc h l) (hrecords (hc.of_error h))

theorem maintains_enter {d : Deed} (hd : (Entry.mk d x.focus).call? = none) (hx : x.Records calls) :
    Maintains (Logged.Records calls) x (enter d : Logging ε Unit) := by
  refine ensures_modify ?_
  unfold Logged.Records
  rwa [List.filterMap_append, List.filterMap_cons_none hd, List.filterMap_nil, List.append_nil]

theorem maintains_finish (i : Instruction) (f : Flow) (hx : x.Records calls) :
    Maintains (Logged.Records calls) x (finish i f) := by
  refine (maintains_enter rfl hx).bind fun _ y hy => ?_
  refine (maintains_lift (Action.makes_callHook _ .after i) hy).bind fun _ y hy => ?_
  refine (maintains_lift (y.focus.makes_nil (ensures_modify rfl)) hy).bind fun _ y hy => ?_
  exact maintains_enter rfl hy

theorem maintains_runInstruction (o : Options) (i : Instruction) (hx : x.Records calls) :
    Maintains (Logged.Records calls) x (runInstruction o i) := by
  refine (maintains_lift (Action.makes_callHook _ .before i) hx).bind fun _ y hy => ?_
  refine (maintains_enter rfl hy).bind fun _ y hy => ?_
  refine (maintains_lift (Instruction.makes_run _ o i) hy).bind fun effect y hy => ?_
  cases effect with
  | flow f => exact (maintains_finish i f hy).return fun _ hz => hz
  | call callee r => exact ensures_pure hy
  | join child => exact ensures_pure hy

theorem maintains_resume {w : Wait} {a : Action Unit} (ha : w.Accepts a) (i : Instruction)
    (hx : x.Records calls) : Maintains (Logged.Records calls) x (resume i a) := by
  have hquiet : x.focus.Makes a [] :=
    x.focus.makes_nil (ha.maintains (steady_calls {} x.focus.world.calls) rfl)
  exact (maintains_lift hquiet hx).bind fun _ y hy => maintains_finish i .next hy

theorem maintains_handle (f : Fault) (hx : x.Records calls) :
    Maintains (Logged.Records calls) x (handle f) :=
  (maintains_enter rfl hx).bind fun _ _ hy => maintains_lift (Guarded.makes_handle _ f) hy

theorem maintains_attempt {a : Logging Abort α} (ha : Maintains (Logged.Records calls) x a) :
    Maintains (Logged.Records calls) x (attempt a) := by
  unfold Maintains Ensures attempt
  cases h : a x with
  | ok v y => exact ha.of_ok h
  | error e y =>
    have hy := ha.of_error h
    cases e with
    | panic p => exact hy
    | fault f =>
      have hhandle := maintains_handle f hy
      dsimp only
      cases hf : handle f y with
      | ok u z => exact hhandle.of_ok hf
      | error p z => exact hhandle.of_error hf

theorem maintains_turn (o : Options) (hx : x.Records calls) :
    Maintains (Logged.Records calls) x (turn o) := by
  refine ensures_get ?_
  dsimp only
  split
  · exact ensures_pure hx
  · split
    · exact (maintains_handle _ hx).return fun _ hy => hy
    · split
      · exact ensures_pure hx
      · rename_i i _
        have hbegins : Ensures (Logged.Records calls) x (enter (.begins i) : Logging Panic Unit)
            fun _ y => y.Records calls ∧ y.focus = x.focus :=
          ⟨maintains_enter (ε := Panic) rfl hx, rfl⟩
        refine hbegins.bind fun _ y hy => ?_
        have hset : y.focus.Makes (set x.focus.counted : Guarded PUnit) [] := by
          rw [hy.2]
          exact x.focus.makes_nil rfl
        refine (maintains_lift hset hy.1).bind fun _ z hz => ?_
        exact (maintains_attempt (maintains_runInstruction o i hz)).bind fun _ _ h => ensures_pure h

/-- What is entered tells of all calls that are made. -/
theorem Erases.makes {a : Logging ε α} {b : EStateM ε Focus α} (h : Erases a b) (s : Focus)
    (ha : Maintains (Logged.Records s.world.calls) ⟨s, []⟩ a) :
    s.Makes b ((entries a s).filterMap Entry.call?) := by
  cases hb : b s with
  | ok v t => exact ensures_of_ok hb (ha.of_ok (h.eq_ok hb))
  | error e t => exact ensures_of_error hb (ha.of_error (h.eq_error hb))

theorem makes_turn (o : Options) (s : Focus) :
    s.Makes (Guarded.turn o) ((entries (turn o) s).filterMap Entry.call?) :=
  (erases_turn o).makes s (maintains_turn o (List.append_nil _).symm)

end Logging

end CellMachine
