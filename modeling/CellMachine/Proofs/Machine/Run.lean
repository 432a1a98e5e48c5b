import CellMachine.Machine.Execution
import CellMachine.Proofs.Machine.Action

/-!
# Runs step by step

This module gives the parts of a run that statements about all of it refer to: the instruction that
a turn dispatches with the state that it is dispatched in, the events of a schedule with the
machines that they find, and the steps that a run takes, which are one of many schedules.
-/

namespace CellMachine

/-- A turn of the state `s` dispatches the instruction `i` in the state `t`, which is `s` after the
call of the bound extension in front of the instruction. -/
structure Focus.Dispatches (o : Options) (s : Focus) (i : Instruction) (t : Focus) : Prop where
  live : s.exec.isLive = true
  notStopped : s.world.stopped = false
  notExhausted : s.exec.isExhausted o = false
  instruction : s.exec.program.get? s.exec.ip = some i
  before : Action.callHook .before i
    { s with exec := { s.exec with steps := s.exec.steps + 1 } } = .ok () t

namespace Machine

variable {o : Options} {m : Machine}

/-- The next step of the thread `n` dispatches the instruction `i` in the state `t`. -/
def Dispatches (o : Options) (m : Machine) (n : Nat) (i : Instruction) (t : Focus) : Prop :=
  ∃ e callers, m.threads[n]? = some (.running e callers) ∧ Focus.Dispatches o ⟨m.world, e⟩ i t

/-- The events of a schedule, each with the machine that it finds. -/
def history (o : Options) (m : Machine) : List Event → List (Machine × Event)
  | [] => []
  | ev :: es => (m, ev) :: history o (m.after o ev) es

theorem play_append (es es' : List Event) : m.play o (es ++ es') = (m.play o es).play o es' :=
  List.foldl_append

/-- The steps of a run, each as the machine and the thread that moves. -/
def steps (done : Machine → Bool) (o : Options) : (fuel : Nat) → Machine → List (Machine × Nat)
  | 0, _ => []
  | fuel + 1, m =>
    if done m then []
    else
      match m.next? with
      | none => []
      | some n => (m, n) :: steps done o fuel (m.advance o n)

def schedule (done : Machine → Bool) (o : Options) (fuel : Nat) (m : Machine) : List Event :=
  (m.steps done o fuel).map fun x => .turn x.2

/-- A run is one of many schedules, with its steps as the history. -/
theorem runUntil_eq_play (done : Machine → Bool) (o : Options) (fuel : Nat) (m : Machine) :
    m.runUntil done o fuel = m.play o (m.schedule done o fuel) ∧
      m.history o (m.schedule done o fuel) =
        (m.steps done o fuel).map fun x => (x.1, .turn x.2) := by
  induction fuel generalizing m with
  | zero => exact ⟨rfl, rfl⟩
  | succ fuel ih =>
    unfold schedule
    rw [runUntil, steps]
    cases done m with
    | true => exact ⟨rfl, rfl⟩
    | false =>
      cases m.next? with
      | none => exact ⟨rfl, rfl⟩
      | some n =>
        rcases ih (m.advance o n) with ⟨hplay, hhistory⟩
        exact ⟨hplay, congrArg (List.cons (m, Event.turn n)) hhistory⟩

theorem exists_play_of_runUntil (done : Machine → Bool) (o : Options) (fuel : Nat) (m : Machine) :
    ∃ es, m.runUntil done o fuel = m.play o es :=
  ⟨_, (runUntil_eq_play done o fuel m).1⟩

/-- The machine after the main program, with the stop flag set if `stop` says so. -/
def released (o : Options) (fuel : Nat) (stop : Bool) (m : Machine) : Machine :=
  let m := m.runUntil mainEnded o fuel
  if stop then { m with world := { m.world with stopped := true } } else m

/-- An execution that is over has run the main program to its end, and then all that this has left
behind. -/
theorem exists_ending_of_ofMachine {fuel : Nat} {stop : Bool} {x : Execution}
    (h : Execution.ofMachine o fuel stop m = some (.ok x)) :
    let last := (m.released o fuel stop).runUntil allEnded o fuel
    ∃ clock, (m.runUntil mainEnded o fuel).ending? 0 = some (.ok x.outcome, clock) ∧
      last.allEnded = true ∧ x.world = last.world ∧ x.waitFault = last.waitFault := by
  intro last
  unfold Execution.ofMachine at h
  rcases hending : (m.runUntil mainEnded o fuel).ending? 0 with _ | ⟨_ | outcome, clock⟩
  · simp only [hending, reduceCtorEq] at h
  · simp only [hending, Option.some.injEq, reduceCtorEq] at h
  · simp only [hending] at h
    change (if last.allEnded = true then _ else _) = _ at h
    by_cases hended : last.allEnded = true
    · rw [if_pos hended] at h
      cases h
      exact ⟨clock, rfl, hended, rfl, rfl⟩
    · rw [if_neg hended] at h
      cases h

end Machine

/-- The steps of an execution: those of the main program and, if that comes to an end without a
panic, those of the threads that it has left behind. -/
def Execution.steps (o : Options) (fuel : Nat) (stop : Bool) (m : Machine) :
    List (Machine × Nat) :=
  m.steps Machine.mainEnded o fuel ++
    match (m.runUntil Machine.mainEnded o fuel).ending? 0 with
    | some (.ok _, _) => (m.released o fuel stop).steps Machine.allEnded o fuel
    | _ => []

end CellMachine
