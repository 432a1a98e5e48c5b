import CellMachine.Proofs.Machine.Schedule
import CellMachine.Proofs.Machine.Spawn

/-!
# Labels and jumps

This module proves that executors stay within their programs. A jump to a label is not checked, so
that it rests on the label table, which has to be built anew whenever a program is cut or replaced.
It always is, and then no jump leaves the program, as long as no hook fails at the end of an
instruction: an executor that has just loaded a program may stand beyond its end, and stays there if
the hook takes the jump away.
-/

namespace CellMachine

open Stateful

/-- The program is as it is built from its instructions, with the label table. -/
def Program.Built (p : Program) : Prop := ∃ is, p = .ofList is

theorem Program.Built.labelled {p : Program} (h : p.Built) : p.Labelled := by
  rcases h with ⟨is, rfl⟩
  exact labelled_ofList is

/-- The executor is at a position of its program, or right behind it. -/
structure Executor.Placed (e : Executor) : Prop where
  built : e.program.Built
  bound : e.ip ≤ e.program.size

/-- From the position `ip` an instruction with this flow leads to a place of the program. -/
structure Program.Leads (p : Program) (ip : Nat) (f : Flow) : Prop where
  built : p.Built
  bound : match f with
    | .jump k => k < p.size
    | _ => ip < p.size

/-- An instruction with this flow takes the executor to a place of its program. -/
def Executor.Leads (f : Flow) (e : Executor) : Prop := e.program.Leads e.ip f

/-- The executor is led to a place, and all that are to have threads are at one. -/
def Focus.Leads (f : Flow) (s : Focus) : Prop :=
  s.exec.Leads f ∧ ∀ a ∈ s.world.arrivals, a.Placed

/-! ## One executor -/

namespace Executor

variable {e : Executor} {f : Flow}

theorem Leads.follow (h : e.Leads f) : (e.follow f).Placed := by
  rcases h with ⟨hbuilt, hbound⟩
  cases f with
  | next => exact ⟨hbuilt, hbound⟩
  | jump k => exact ⟨hbuilt, Nat.le_of_lt hbound⟩
  | halt => exact ⟨hbuilt, Nat.le_of_lt hbound⟩

theorem Leads.afterFault (h : e.Leads .next) (fault : Fault) : (e.afterFault fault).Placed := by
  have hbound : e.ip < e.program.size := h.bound
  have hprogram := e.afterFault_program fault
  refine ⟨hprogram ▸ h.built, ?_⟩
  rw [hprogram]
  rcases e.afterFault_cases fault with ⟨hip, -⟩ | ⟨hip, -⟩ <;> omega

/-- What a program without a part is shorter by is what the position behind the part moves by. -/
theorem Leads.without (h : e.Leads .next) {first past : Nat} (hordered : first ≤ past)
    (hwithin : past ≤ e.program.size) (houtside : ¬(first ≤ e.ip ∧ e.ip < past)) :
    (e.without first past).Leads .next := by
  have hbound : e.ip < e.program.size := h.bound
  have hsize := e.program.size_cut hordered hwithin
  have hip : (e.without first past).ip < (e.program.cut first past).1.size := by
    change (if past ≤ e.ip then e.ip - (past - first) else e.ip) < _
    split <;> omega
  exact ⟨⟨_, rfl⟩, hip⟩

theorem placed_offspring (e : Executor) (is : List Instruction) (active : UInt32) :
    (Action.offspring e (.ofList is) active).Placed :=
  ⟨⟨is, rfl⟩, Nat.zero_le _⟩

end Executor

/-- A jump that lands leads to a place of the program. -/
theorem Flow.Lands.leads {f : Flow} {p : Program} {ip : Nat} (h : f.Lands p)
    (hp : p.Leads ip .next) : p.Leads ip f := by
  cases f with
  | next => exact hp
  | halt => exact ⟨hp.built, hp.bound⟩
  | jump k =>
    rcases h with hk | ⟨name, hk⟩
    · exact ⟨hp.built, hk⟩
    · -- The target comes from the label table, which is right.
      exact ⟨hp.built, Program.lt_size_of_label? hp.built.labelled hk⟩

/-! ## Turns -/

variable {o : Options} {s t : Focus} {i : Instruction}

theorem passive_leads (o : Options) (f : Flow) : Passive o (Focus.Leads f) :=
  Passive.ofPlace o fun p ip arrivals => p.Leads ip f ∧ ∀ a ∈ arrivals, a.Placed

/-- An instruction leads its executor to a place, and executors that it starts are at one. -/
theorem Instruction.ensures_leads (hs : s.Leads .next) (i : Instruction) :
    Ensures (Focus.Leads .next) s (i.run o) fun effect u =>
      match effect with
      | .flow f => u.Leads f
      | .call callee _ => u.Leads .next ∧ callee.Placed
      | .join child => u.Leads .next ∧ child.Placed := by
  refine (passive_leads o .next).ensures_instruction hs i ?_ ?_ ?_
  · intro effect u hu hplain
    cases effect with
    | flow f => exact ⟨Flow.Lands.leads hplain hu.1, hu.2⟩
    | call callee r =>
      rcases hplain with ⟨is, active, rfl⟩
      exact ⟨hu, u.exec.placed_offspring is active⟩
    | join child => exact hplain.elim
  · intro byLabel joined _
    have hleft (first past : Nat) (hcuts : s.Cuts i byLabel first past) :=
      hs.1.without hcuts.ordered hcuts.within hcuts.outside
    refine Opcode.ensures_spawn hs (fun first past h => ⟨hleft first past h.toCuts, hs.2⟩) ?_
    intro first past hgrants
    replace hleft := hleft first past hgrants.toCuts
    have hpart : (s.exec.part first past).Placed := s.exec.placed_offspring _ _
    cases joined with
    | true => exact ⟨⟨hleft, hs.2⟩, hpart⟩
    | false =>
      refine ⟨hleft, ?_⟩
      intro a ha
      rcases List.mem_append.1 ha with ha | ha
      · exact hs.2 a ha
      · rw [List.mem_singleton] at ha
        exact ha ▸ hpart
  · intro _
    refine Opcode.ensures_loadProgram hs ?_
    intro is k hk
    exact ⟨⟨⟨is, rfl⟩, hk⟩, hs.2⟩

/-- Executors are at places of their programs, and within an instruction at the instruction, in
every turn in which no hook fails at the end of an instruction. -/
theorem invariant_placed (o : Options) :
    Machine.Invariant o (fun s => ¬s.EndFails o) (fun _ => True) Executor.Placed
      (fun _ e => e.Leads .next) := by
  -- What is known of the executors that are to have threads is part of what instructions keep up.
  have hworld (f : Flow) (t : Focus) (ht : t.Leads f) :
      t.world.Holds (fun _ => True) Executor.Placed := ⟨trivial, ht.2⟩
  have hfollow (f : Flow) (t : Focus) (ht : t.Leads f) :
      t.world.Holds (fun _ => True) Executor.Placed ∧ (t.exec.follow f).Placed :=
    ⟨hworld f t ht, ht.1.follow⟩
  have hfault (f : Fault) (t : Focus) (ht : t.Leads .next) :
      t.world.Holds (fun _ => True) Executor.Placed ∧ (t.exec.afterFault f).Placed :=
    ⟨hworld .next t ht, ht.1.afterFault f⟩
  have hnone {w : World} (hw : w.arrivals = []) : ∀ a ∈ w.arrivals, a.Placed := by
    intro a ha
    rw [hw] at ha
    cases ha
  refine ⟨fun _ _ => trivial, fun _ => trivial, fun _ _ => trivial, ?_, ?_, ?_⟩
  · intro w e _ hw he hends
    have hturn : Ensures (Focus.Leads .next) ⟨w, e⟩ (Guarded.turn o) fun turn t =>
        t.world.Holds (fun _ => True) Executor.Placed ∧
          turn.Holds Executor.Placed (fun _ e => e.Leads .next) t.exec := by
      refine Guarded.ensures_turn (passive_leads o .next).stable (K := Focus.Leads)
        (fun f => (passive_leads o f).stable) ?_ ?_ ?_ ?_ hfollow hfault
      · intro _
        exact ⟨⟨trivial, hnone hw⟩, trivial⟩
      · intro hlive
        have hleads : e.program.Leads e.ip .next := ⟨he.built, Executor.lt_size_of_isLive hlive⟩
        exact ⟨⟨hleads, hnone hw⟩, hleads, hnone hw⟩
      · intro i t _ ht
        refine (Instruction.ensures_leads ht i).imp ?_
        intro effect u hu
        cases effect with
        | flow f => exact hu
        | call callee r => exact ⟨hworld .next u hu.1, hu.1.1, hu.2⟩
        | join child => exact ⟨hworld .next u hu.1, hu.1.1, hu.2⟩
      · intro hfails
        exact absurd hfails hends
    exact hturn.mono (hworld .next) fun _ _ h => h
  · intro w e i clock r outcome _ hw he
    have hs : Focus.Leads .next ⟨w, { e with clock }⟩ := ⟨he, hnone hw⟩
    have hreceive := Guarded.ensures_receive (passive_leads o .next).stable hs i r outcome
      (Q := fun t => t.world.Holds (fun _ => True) Executor.Placed ∧ t.exec.Placed)
      (hfollow .next) hfault
    exact hreceive.mono (hworld .next) fun _ _ h => h
  · intro w e i clock result _ hw he
    have hs : Focus.Leads .next ⟨w, { e with clock }⟩ := ⟨he, hnone hw⟩
    have hreceive := Guarded.ensures_receiveJoined (passive_leads o .next).stable hs i result
      (Q := fun t => t.world.Holds (fun _ => True) Executor.Placed ∧ t.exec.Placed)
      (hfollow .next) hfault
    exact hreceive.mono (hworld .next) fun _ _ h => h

/-! ## Machines -/

theorem Thread.Holds.placed {t : Thread}
    (h : t.Holds Executor.Placed fun _ e => e.Leads .next) : ∀ e ∈ t.executors, e.Placed := by
  have hplaced {e : Executor} (he : e.Leads .next) : e.Placed := ⟨he.built, Nat.le_of_lt he.bound⟩
  have hcallers {callers : List Suspended} (hc : ∀ c ∈ callers, c.exec.Leads .next) :
      ∀ e ∈ callers.map (·.exec), e.Placed := by
    intro e he
    rcases List.mem_map.1 he with ⟨c, hmem, rfl⟩
    exact hplaced (hc c hmem)
  cases t with
  | running e callers => exact List.forall_mem_cons.2 ⟨h.1, hcallers h.2⟩
  | waiting e i child callers => exact List.forall_mem_cons.2 ⟨hplaced h.1, hcallers h.2⟩
  | ended result clock =>
    intro e he
    cases he

/-- After every schedule in which no hook fails at the end of an instruction, the label table of
every executor is the one of its program, no position is beyond the end, and every jump that is made
next goes to a position of the program. -/
theorem Machine.executors_labelled (o : Options) (world : World) (is : List Instruction)
    (active : UInt32) (es : List Event)
    (hends : ∀ x ∈ (Machine.start o { world with arrivals := [] } (.ofList is) active).history o es,
      ∀ n, x.2 = .turn n → x.1.Admits (fun s => ¬s.EndFails o) n) :
    let m := (Machine.start o { world with arrivals := [] } (.ofList is) active).play o es
    (∀ t ∈ m.threads, ∀ e ∈ t.executors, e.program.Labelled ∧ e.ip ≤ e.program.size) ∧
      ∀ (n : Nat) (i : Instruction) (t u : Focus) (k : Nat), m.Dispatches o n i t →
        i.run o t = .ok (.flow (.jump k)) u → k < u.exec.program.size := by
  intro m
  have hstart : (Machine.start o { world with arrivals := [] } (.ofList is) active).Holds
      (fun _ => True) Executor.Placed (fun _ e => e.Leads .next) :=
    Machine.holds_start trivial rfl ⟨⟨is, rfl⟩, Nat.zero_le _⟩
  have hm := hstart.play (invariant_placed o) hends
  refine ⟨?_, ?_⟩
  · intro t ht e he
    have hplaced := (hm.threads t ht).placed e he
    exact ⟨hplaced.built.labelled, hplaced.bound⟩
  · rintro n i t u k ⟨e, callers, hthread, hdispatched⟩ hrun
    have he : e.Placed := (hm.threads _ (List.mem_of_getElem? hthread)).1
    have hbound : e.ip < e.program.size := Executor.lt_size_of_isLive hdispatched.live
    have hcounted : (Focus.counted ⟨m.world, e⟩).Leads .next := by
      refine ⟨⟨he.built, hbound⟩, ?_⟩
      intro a ha
      have hnone : a ∈ ([] : List Executor) := hm.settled ▸ ha
      cases hnone
    have hbefore := (passive_leads o .next).maintains_callHook hcounted .before i
    have ht := hbefore.of_ok hdispatched.before
    have hjump := (Instruction.ensures_leads ht i).of_ok hrun
    exact hjump.1.bound

/-- A label and a jump to it. -/
def Program.loop : List Instruction := [⟨0, 125, [[97]]⟩, ⟨1, 126, [[97]]⟩]

theorem Machine.executors_labelled_loop :
    (∀ x ∈ (Machine.start {} {} (.ofList Program.loop) 0).history {} [.turn 0, .turn 0],
        ∀ n, x.2 = .turn n → x.1.Admits (fun s => ¬s.EndFails {}) n) ∧
      let m := (Machine.start {} {} (.ofList Program.loop) 0).play {} [.turn 0, .turn 0]
      (∀ t ∈ m.threads, ∀ e ∈ t.executors, e.program.Labelled ∧ e.ip ≤ e.program.size) ∧
        ∀ (n : Nat) (i : Instruction) (t u : Focus) (k : Nat), m.Dispatches {} n i t →
          i.run {} t = .ok (.flow (.jump k)) u → k < u.exec.program.size := by
  have hends : ∀ x ∈ (Machine.start {} {} (.ofList Program.loop) 0).history {} [.turn 0, .turn 0],
      ∀ n, x.2 = .turn n → x.1.Admits (fun s => ¬s.EndFails {}) n := by
    intro x hx n hn e callers hthread ⟨i, t, f, u, a, v, hdispatched, hrun, hhook⟩
    rcases hx with _ | ⟨_, _ | ⟨_, hx⟩⟩
    · -- The label does nothing, and no extension is bound.
      cases hn
      cases (Option.some.inj hthread :
        Thread.running { program := .ofList Program.loop, active := 0 } [] = _)
      cases Option.some.inj hdispatched.instruction
      cases hdispatched.before
      cases hrun
      cases hhook
    · cases hn
      cases (Option.some.inj hthread : Thread.running
        { program := .ofList Program.loop, ip := 1, active := 0, steps := 1 } [] = _)
      cases Option.some.inj hdispatched.instruction
      cases hdispatched.before
      cases hrun
      cases hhook
    · cases hx
  exact ⟨hends, Machine.executors_labelled {} {} Program.loop 0 [.turn 0, .turn 0] hends⟩

end CellMachine
