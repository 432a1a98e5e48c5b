import CellMachine.Proofs.Machine.ActiveNamespace
import CellMachine.Proofs.Machine.Schedule

/-!
# Callers

This module proves what an executor finds when a program that it has run in place is over. The
executor has waited on its thread with its active namespace, below whatever has been run on top of
it; and the namespace is in the table unless someone has taken it out. Only an executor with another
active namespace can do that, by deleting this one or by pruning.
-/

namespace CellMachine

open Stateful

variable {o : Options} {m : Machine} {n : Nat} {a id : UInt32} {i : Instruction} {s t u : Focus}
  {callee : Executor} {callers : List Suspended} {r : Reception}

/-! ## Calls -/

theorem Action.atOnce_ne_call (b : Action Flow) (s t : Focus) :
    Action.atOnce b s ≠ .ok (.call callee r) t := by
  intro h
  rcases bind_eq_ok_iff.1 h with ⟨f, u, -, h⟩
  cases h

/-- What runs a program in place leaves its own program, the namespaces and the stop flag alone. -/
theorem Opcode.plain_of_call {op : Opcode} (h : op.run o i t = .ok (.call callee r) u) :
    ¬op.EditsProgram ∧ ¬op.LeavesNamespace ∧ op ≠ .stopAll := by
  cases op with
  | loadProgram | switchNamespace | deleteNamespace | pruneNamespaces | stopAll =>
    exact absurd h (Action.atOnce_ne_call _ _ _)
  | spawn byLabel joined =>
    -- A thread that is waited for is no call.
    rcases Opcode.spawn_eq_ok h with ⟨first, past, -, hparting, -⟩
    cases joined <;> cases hparting
  | _ => exact ⟨not_false, not_false, nofun⟩

/-- The executor that waits keeps its active namespace. -/
theorem Instruction.active_of_call (h : i.run o t = .ok (.call callee r) u) :
    u.exec.active = t.exec.active := by
  unfold run at h
  cases hop : Opcode.ofCode? i.opcode with
  | none =>
    rw [hop] at h
    exact absurd h (Action.atOnce_ne_call _ _ _)
  | some op =>
    rw [hop] at h
    rcases Opcode.plain_of_call h with ⟨hprogram, hnamespace, hflag⟩
    have hstable := (lasting_active (· = t.exec.active)).stable o
    have hrun := hstable.ensures_native (s := t) rfl op i hprogram hnamespace hflag
    exact (hrun.of_ok h).1

theorem Instruction.not_removes_of_call (h : i.run o t = .ok (.call callee r) u) :
    ¬i.Removes t id := by
  intro hremoves
  unfold Removes at hremoves
  unfold run at h
  cases hop : Opcode.ofCode? i.opcode with
  | none => simp only [hop] at hremoves
  | some op =>
    rw [hop] at h
    have hleaves := (Opcode.plain_of_call h).2.1
    cases op with
    | deleteNamespace | pruneNamespaces => exact hleaves trivial
    | _ => simp only [hop] at hremoves

/-! ## The namespace of a caller -/

namespace Machine

/-- The next turn of the thread `n` takes the namespace `id` out of the table. -/
def Removes (o : Options) (m : Machine) (n : Nat) (id : UInt32) : Prop :=
  ∃ i t, m.Dispatches o n i t ∧ i.Removes t id

/-- A namespace that is active wherever instructions are run is not taken out. -/
theorem not_removes_of_active (o : Options) (n : Nat)
    (h : ∀ t ∈ m.threads, ∀ e ∈ t.executors, e.active = id) : ¬m.Removes o n id := by
  rintro ⟨i, t, ⟨e, callers, hthread, hdispatched⟩, hremoves⟩
  have hactive : e.active = id := h _ (List.mem_of_getElem? hthread) e List.mem_cons_self
  refine i.not_removes_active t ?_
  rwa [hdispatched.active, hactive]

/-- A namespace stays in the table in every turn that does not take it out. -/
theorem invariant_contains (o : Options) (id : UInt32) :
    Invariant o (fun s => ∀ i t, s.Dispatches o i t → ¬i.Removes t id)
      (fun w => w.table.contains id = true) (fun _ => True) fun _ _ => True where
  arrivals _ hw := hw
  stopped hw := hw
  refusal _ hw := hw
  turn {w e} hw _ _ hkept := by
    have hmaintains := (lasting_has id).maintains_turn (s := ⟨w, e⟩) hw
      fun i t h ht op hop hleaves => Opcode.maintains_has hop hleaves o ht (hkept i t h)
    refine hmaintains.mono (fun t ht => ⟨ht, fun _ _ => trivial⟩) fun turn t ht => ?_
    refine ⟨⟨ht, fun _ _ => trivial⟩, ?_⟩
    cases turn with
    | ready | done => trivial
    | calling i callee r | joining i child => exact ⟨trivial, trivial⟩
  receive {w e i} clock r outcome hw _ _ := by
    have hreceive := (lasting_has id).maintains_receive (s := ⟨w, { e with clock }⟩) hw i r outcome
    exact hreceive.mono (fun t ht => ⟨ht, fun _ _ => trivial⟩)
      fun _ t ht => ⟨⟨ht, fun _ _ => trivial⟩, trivial⟩
  receiveJoined {w e i} clock result hw _ _ := by
    have hreceive := (lasting_has id).maintains_receiveJoined (s := ⟨w, { e with clock }⟩) hw i
      result
    exact hreceive.mono (fun t ht => ⟨ht, fun _ _ => trivial⟩)
      fun _ t ht => ⟨⟨ht, fun _ _ => trivial⟩, trivial⟩

end Machine

/-! ## The place of a caller -/

/-- An executor with the active namespace `a` waits on top of `callers`, or it is running there. -/
def Thread.Shelters (a : UInt32) (callers : List Suspended) : Thread → Prop
  | .running e cs => cs = callers ∧ e.active = a ∨
    ∃ above c, cs = above ++ c :: callers ∧ c.exec.active = a
  | .waiting _ _ _ cs => ∃ above c, cs = above ++ c :: callers ∧ c.exec.active = a
  | .ended .. => True

namespace Machine

def Shelters (a : UInt32) (callers : List Suspended) (n : Nat) (m : Machine) : Prop :=
  ∃ t, m.threads[n]? = some t ∧ t.Shelters a callers

theorem shelters_put {t : Thread} {w : World} (hn : n < m.threads.length)
    (ht : t.Shelters a callers) : (m.put n t w).Shelters a callers n :=
  ⟨t, put_threads_self hn t w, ht⟩

theorem shelters_resumed {b : Action Unit} {cs : List Suspended} (hn : n < m.threads.length)
    (h : ∀ v t, Guarded.attempt b s = .ok v t →
      Thread.Shelters a callers (.running t.exec cs)) :
    (m.resumed n cs b s).Shelters a callers n := by
  rcases resumed_cases n cs b s with ⟨v, t, ht, hput⟩ | ⟨panic, t, -, hput⟩
  · rw [hput]
    exact shelters_put hn (h v t ht)
  · rw [hput]
    exact shelters_put hn trivial

/-- A turn of a thread either leaves the caller waiting or leads back to it. -/
theorem Shelters.advance (h : m.Shelters a callers n) (hdepth : callers.length < m.depth n) :
    (m.advance o n).Shelters a callers n := by
  have hstep := step_advance o m n
  generalize m.advance o n = m' at hstep
  rcases h with ⟨t, ht, hshelters⟩
  have hn : n < m.threads.length := (List.getElem?_eq_some_iff.1 ht).1
  -- The caller is not the one that has the turn, since the thread is too deep for that.
  have hrunning {e : Executor} {cs : List Suspended}
      (hthread : m.threads[n]? = some (.running e cs)) :
      ∃ above c, cs = above ++ c :: callers ∧ c.exec.active = a := by
    cases ht.symm.trans hthread
    rw [depth, hthread] at hdepth
    rcases hshelters with ⟨rfl, -⟩ | habove
    · exact absurd hdepth (Nat.lt_irrefl _)
    · exact habove
  cases hstep with
  | idle _ => exact ⟨t, ht, hshelters⟩
  | ready hthread _ => exact shelters_put hn (.inr (hrunning hthread))
  | calling hthread _ =>
    rcases hrunning hthread with ⟨above, c, rfl, hc⟩
    exact shelters_put hn (.inr ⟨_ :: above, c, rfl, hc⟩)
  | joining hthread _ =>
    exact ⟨_, fork_threads_self hn _ _ _ _ _, hrunning hthread⟩
  | finished _ _ | panicked _ _ => exact shelters_put hn trivial
  | @returned e c cs s hthread _ =>
    refine shelters_resumed hn fun v u hu => ?_
    rcases hrunning hthread with ⟨_ | ⟨c', above⟩, c₀, hcs, hc⟩
    · -- The executor that goes on is the caller itself.
      cases hcs
      have hreceive := (lasting_active (· = a)).maintains_receive
        (s := ⟨s.world, { c.exec with clock := s.exec.clock }⟩) hc c.instruction c.reception
        s.exec.outcome
      exact .inl ⟨rfl, hreceive.of_ok hu⟩
    · -- It is one that has been run on top of the caller.
      cases hcs
      exact .inr ⟨above, c₀, rfl, hc⟩
  | joined hthread _ =>
    refine shelters_resumed hn fun v u _ => .inr ?_
    cases ht.symm.trans hthread
    exact hshelters

theorem Shelters.after (h : m.Shelters a callers n) (hdepth : callers.length < m.depth n)
    (ev : Event) : (m.after o ev).Shelters a callers n := by
  cases ev with
  | stop | host refusal => exact h
  | turn k =>
    by_cases hk : k = n
    · subst hk
      exact h.advance hdepth
    · rcases h with ⟨t, ht, hshelters⟩
      have hn : n < m.threads.length := (List.getElem?_eq_some_iff.1 ht).1
      exact ⟨t, (advance_threads_of_ne o (Ne.symm hk) hn).trans ht, hshelters⟩

/-- As long as something is run on top of it, the caller waits. -/
theorem Shelters.play (h : m.Shelters a callers n) {es : List Event}
    (hnested : ∀ x ∈ m.history o es, callers.length < x.1.depth n) :
    (m.play o es).Shelters a callers n := by
  induction es generalizing m with
  | nil => exact h
  | cons ev es ih =>
    rcases List.forall_mem_cons.1 hnested with ⟨hfirst, hrest⟩
    exact ih (h.after hfirst ev) hrest

theorem Shelters.active {e : Executor} (h : m.Shelters a callers n)
    (hthread : m.threads[n]? = some (.running e callers)) : e.active = a := by
  rcases h with ⟨t, ht, hshelters⟩
  cases ht.symm.trans hthread
  rcases hshelters with ⟨-, hactive⟩ | ⟨above, c, hcallers, -⟩
  · exact hactive
  · have hlength := congrArg List.length hcallers
    rw [List.length_append, List.length_cons] at hlength
    omega

/-! ## Returns -/

/-- The instruction that the executor `e` dispatches runs a program in place, and when that is over
and `e'` goes on where `e` has been, the active namespace is still there, unless someone has taken
it out of the table in the meantime. -/
theorem keepsActive_of_returned {e e' : Executor} {es : List Event} (hm : m.world.arrivals = [])
    (hthread : m.threads[n]? = some (.running e callers))
    (hactive : m.world.table.contains e.active = true)
    (hdispatched : Focus.Dispatches o ⟨m.world, e⟩ i t)
    (hrun : i.run o t = .ok (.call callee r) u)
    (hnested : ∀ x ∈ (m.advance o n).history o es, callers.length < x.1.depth n)
    (hkept : ∀ x ∈ (m.advance o n).history o es, ∀ k, x.2 = .turn k →
      ¬x.1.Removes o k e.active)
    (hreturned : ((m.advance o n).play o es).threads[n]? = some (.running e' callers)) :
    e'.active = e.active ∧ Focus.KeepsActive o ⟨((m.advance o n).play o es).world, e'⟩ := by
  have hn : n < m.threads.length := (List.getElem?_eq_some_iff.1 hthread).1
  -- The executor that waits has the same active namespace, and so has the one that goes on.
  have hwaiting : u.exec.active = e.active :=
    (Instruction.active_of_call hrun).trans hdispatched.active
  have hadvance :
      m.advance o n = m.put n (.running callee (⟨u.exec, i, r⟩ :: callers)) u.world := by
    simp only [Machine.advance, hthread, Guarded.turn_of_call hdispatched hrun]
  have hshelters : (m.advance o n).Shelters e.active callers n := by
    rw [hadvance]
    exact shelters_put hn (.inr ⟨[], _, rfl, hwaiting⟩)
  have hsame : e'.active = e.active := (hshelters.play hnested).active hreturned
  -- The namespace is in the table before the call, after it, and when the call is over.
  have hstart : m.Holds (fun w => w.table.contains e.active = true) (fun _ => True)
      fun _ _ => True := by
    refine ⟨hactive, hm, fun t _ => ?_⟩
    cases t with
    | ended result clock => trivial
    | _ => exact ⟨trivial, fun _ _ => trivial⟩
  have hcalled : (m.advance o n).Holds (fun w => w.table.contains e.active = true)
      (fun _ => True) fun _ _ => True := by
    refine hstart.advance (invariant_contains o e.active) ?_
    intro e₀ callers₀ hthread₀ i₀ t₀ hdispatched₀
    cases hthread.symm.trans hthread₀
    cases hdispatched.instruction.symm.trans hdispatched₀.instruction
    cases hdispatched.before.symm.trans hdispatched₀.before
    exact Instruction.not_removes_of_call hrun
  have hover := hcalled.play (invariant_contains o e.active) fun x hx k hk e₀ callers₀ hthread₀ i₀
    t₀ hdispatched₀ hremoves =>
      hkept x hx k hk ⟨i₀, t₀, ⟨e₀, callers₀, hthread₀, hdispatched₀⟩, hremoves⟩
  refine ⟨hsame, Focus.keepsActive_of_meets o ?_⟩
  change (((m.advance o n).play o es).world.table).contains e'.active = true
  rw [hsame]
  exact hover.world

end Machine

/-- A machine that is about to run a program in place, which is in the cell 0. -/
def Machine.inPlace (is : List Instruction) : Machine where
  world.table :=
    .insert Table.initial 0 { memory := .insert OrderedMap.empty 0 (Instruction.encodeAll is) }
  threads :=
    [.running
      { program := .ofList [⟨0, 111, [[0, 0, 0, 0]]⟩, ⟨1, 19, [[0, 0, 0, 0]]⟩], active := 0 } []]

/-- Delete every namespace but the active one. -/
def Program.prune : List Instruction := [⟨0, 94, []⟩]

theorem Machine.keepsActive_of_returned_prune :
    let m := ((Machine.inPlace Program.prune).advance {} 0).play {} [.turn 0, .turn 0]
    ∃ e', m.threads[0]? = some (.running e' []) ∧ e'.active = 0 ∧
      Focus.KeepsActive {} ⟨m.world, e'⟩ := by
  have hnested : ∀ x ∈ ((Machine.inPlace Program.prune).advance {} 0).history {}
      [.turn 0, .turn 0], 0 < x.1.depth 0 := by
    decide +kernel
  have hactive : ∀ x ∈ ((Machine.inPlace Program.prune).advance {} 0).history {}
      [.turn 0, .turn 0], ∀ t ∈ x.1.threads, ∀ e ∈ t.executors, e.active = 0 := by
    decide +kernel
  have hkeeps := Machine.keepsActive_of_returned (o := {}) (m := .inPlace Program.prune) rfl
    rfl rfl ⟨rfl, rfl, rfl, rfl, rfl⟩ rfl hnested
    (fun x hx k _ => not_removes_of_active {} k (hactive x hx)) rfl
  exact ⟨_, rfl, hkeeps⟩

/-- Create the namespace 7, switch to it, and delete every other one. -/
def Program.usurp : List Instruction :=
  [⟨0, 2, [[0, 0, 0, 7], [0, 0, 0, 1]]⟩, ⟨1, 91, [[0, 0, 0, 1]]⟩, ⟨2, 90, [[0, 0, 0, 1]]⟩,
    ⟨3, 94, []⟩]

/-- A program that is run in place deletes the active namespace of its caller, which finds it gone
as soon as it goes on. -/
theorem Machine.active_lost :
    let m := Machine.inPlace Program.usurp
    let m' := m.play {} (List.replicate 6 (.turn 0))
    m.world.table.contains 0 = true ∧
      (List.range 7).map (fun k => (m.play {} (List.replicate k (.turn 0))).depth 0) =
        [0, 1, 1, 1, 1, 1, 0] ∧
      (m'.threads.flatMap Thread.executors).map (fun e => (e.ip, e.active)) = [(1, 0)] ∧
      m'.world.table.contains 0 = false ∧
      ((m'.advance {} 0).threads.flatMap Thread.executors).map (·.lastError) =
        [some (.undefinedNamespace 0)] := by
  decide +kernel

end CellMachine
