import CellMachine.Proofs.Machine.Callers
import CellMachine.Proofs.Machine.Policy
import CellMachine.Session

/-!
# What an execution reports

This module proves which errors an execution reports. The flag and the error of an execution are
those of the executor at the bottom of its first thread, in whatever order threads have their turns.
So it reports the errors that this executor has met, and nothing of what any other executor has met:
from a program that is run in place and from a thread that is waited for, the caller takes over the
output and nothing else.
-/

namespace CellMachine

open Stateful

variable {o : Options} {m : Machine} {n d : Nat} {p p' q : Station} {es : List Event} {ev : Event}

namespace Machine

/-- What the executor at the bottom of the first thread enters while the main program runs. -/
def mainLog (o : Options) (fuel : Nat) (m : Machine) : List Entry :=
  (m.steps mainEnded o fuel).flatMap fun x => x.1.entered o (.turn x.2) 0 0

theorem Lives.cons (h : m.station? n d = some p) (hrest : (m.after o ev).Lives o n d q es p') :
    m.Lives o n d p (ev :: es) p' where
  start := h
  stays := List.forall_mem_cons.2 ⟨Option.isSome_of_mem h, hrest.stays⟩
  last := hrest.last

theorem entered_of_ended {x : Except Panic Outcome × Nat} (h : m.ending? n = some x) (ev : Event)
    (d : Nat) : m.entered o ev n d = [] := by
  have hrecord : m.record o n = (0, []) := by
    unfold ending? at h
    unfold record
    cases hthread : m.threads[n]? with
    | none => rfl
    | some t =>
      cases t with
      | ended result clock => rfl
      | running e callers | waiting e i child callers =>
        rw [hthread] at h
        cases h
  unfold entered
  rw [hrecord]
  exact ite_self []

theorem log_of_ended {x : Except Panic Outcome × Nat} (h : m.ending? n = some x) (d : Nat)
    (es : List Event) : m.log o n d es = [] := by
  induction es generalizing m with
  | nil => rfl
  | cons ev es ih => rw [log_cons, entered_of_ended h, List.nil_append, ih (ending?_after h ev)]

/-- If a thread comes to its end, the executor at its bottom has lived up to then. -/
theorem exists_lives_of_ending {outcome : Outcome} {clock : Nat} (hp : m.station? n 0 = some p)
    (h : (m.play o es).ending? n = some (.ok outcome, clock)) :
    ∃ es' p', m.Lives o n 0 p es' p' ∧ outcome = p'.exec.outcome ∧
      m.log o n 0 es' = m.log o n 0 es := by
  induction es generalizing m p with
  | nil => cases (station?_of_ended h 0).symm.trans hp
  | cons ev es ih =>
    change ((m.after o ev).play o es).ending? n = _ at h
    -- As long as the executor is there, its life goes on.
    have hgoesOn {q : Station} (hq : (m.after o ev).station? n 0 = some q) :
        ∃ es' p', m.Lives o n 0 p es' p' ∧ outcome = p'.exec.outcome ∧
          m.log o n 0 es' = m.log o n 0 (ev :: es) := by
      rcases ih hq h with ⟨es', p', hlives, houtcome, hlog⟩
      refine ⟨ev :: es', p', .cons hp hlives, houtcome, ?_⟩
      rw [log_cons, log_cons, hlog]
    -- When it is gone, its thread stays as it has ended.
    have hover {result : Except Panic Outcome} {clock' : Nat}
        (hended : (m.after o ev).ending? n = some (result, clock')) : result = .ok outcome := by
      cases (ending?_play hended es).symm.trans h
      rfl
    cases fate o hp ev with
    | still _ hstation => exact hgoesOn hstation
    | acts _ hstation _ => exact hgoesOn hstation
    | panics _ hended _ => cases hover hended
    | done _ _ _ hnothing _ hended =>
      cases hover (hended rfl)
      refine ⟨[], p, ⟨hp, fun x hx => absurd hx List.not_mem_nil, hp⟩, rfl, ?_⟩
      rw [log_cons, hnothing, log_of_ended (hended rfl)]
      rfl

/-- The log of the main program is one along the turns up to its end. -/
theorem mainLog_eq (o : Options) (fuel : Nat) (m : Machine) :
    m.mainLog o fuel = m.log o 0 0 (m.schedule mainEnded o fuel) := by
  rw [mainLog, log, (runUntil_eq_play mainEnded o fuel m).2, List.flatMap_map]

end Machine

/-- Without a panic of a detached thread, an execution is a failure if it has the flag set and an
error to show. -/
theorem Job.finish_fails_iff (file : String) {x : Execution} (hwait : x.waitFault = none)
    (s : Session) : (∃ d s', Job.finish file x s = .error (.failed d) s') ↔
      x.outcome.errored = true ∧ x.outcome.error.isSome = true := by
  rcases x with ⟨⟨output, errored, error⟩, world, fault⟩
  cases hwait
  cases errored with
  | false => exact ⟨nofun, nofun⟩
  | true =>
    cases error with
    | none => exact ⟨nofun, nofun⟩
    | some f => exact ⟨fun _ => ⟨rfl, rfl⟩, fun _ => ⟨_, _, rfl⟩⟩

/-- What the main program has left behind when it has come to its end. -/
theorem Machine.errored_iff_of_ending (o : Options) (world : World) (program : Program)
    (active : UInt32) (es : List Event) {outcome : Outcome} {clock : Nat}
    (h : ((Machine.start o world program active).play o es).ending? 0 =
      some (.ok outcome, clock)) :
    let l := (Machine.start o world program active).log o 0 0 es
    (outcome.errored = true ↔ ∃ f t, ⟨.faults f, t⟩ ∈ l ∧ t.exec.mode ≠ .none) ∧
      outcome.error = (l.filterMap Entry.fault?).getLast? ∧
      ∀ world' file s,
        (∃ d s', Job.finish file ⟨outcome, world', none⟩ s = .error (.failed d) s') ↔
          outcome.errored = true := by
  intro l
  rcases exists_lives_of_ending (p := ⟨_, none⟩) rfl h with ⟨es', p', hlives, rfl, hlog⟩
  have herrored := hlives.runs.errored
  have herror := hlives.runs.lastError
  rw [hlog] at herrored herror
  have hflag : p'.exec.outcome.errored = true ↔
      ∃ f t, ⟨.faults f, t⟩ ∈ l ∧ t.exec.mode ≠ .none := by
    rw [← any_counts_iff]
    exact Bool.eq_iff_iff.1 (herrored.trans (Bool.false_or _))
  have hlast : p'.exec.outcome.error = (l.filterMap Entry.fault?).getLast? :=
    herror.trans Option.or_none
  refine ⟨hflag, hlast, fun world' file s => ?_⟩
  refine (Job.finish_fails_iff file rfl s).trans ⟨fun hboth => hboth.1, fun hset => ⟨hset, ?_⟩⟩
  -- A fault that sets the flag is there to be shown.
  rcases hflag.1 hset with ⟨f, t, hf, -⟩
  change p'.exec.outcome.error.isSome = true
  rw [hlast, List.getLast?_isSome]
  exact List.ne_nil_of_mem (List.mem_filterMap.2 ⟨_, hf, rfl⟩)

/-- In whatever order threads have their turns, the main program ends with the flag set if the
executor at the bottom of the first thread has met a fault in a mode other than `none`, and its
error is the last fault that this executor has met. The report of the execution is a failure if and
only if the flag is set, unless a detached thread has panicked. -/
theorem Execution.errored_iff_of_ofMachine (o : Options) (world : World) (program : Program)
    (active : UInt32) :
    let m := Machine.start o world program active
    (∀ es outcome clock, (m.play o es).ending? 0 = some (.ok outcome, clock) →
      (outcome.errored = true ↔ ∃ f t, ⟨.faults f, t⟩ ∈ m.log o 0 0 es ∧ t.exec.mode ≠ .none) ∧
      outcome.error = ((m.log o 0 0 es).filterMap Entry.fault?).getLast? ∧
      ∀ world' file s, (∃ d s', Job.finish file ⟨outcome, world', none⟩ s = .error (.failed d) s') ↔
        outcome.errored = true) ∧
    ∀ fuel stop x, Execution.ofMachine o fuel stop m = some (.ok x) →
      (x.outcome.errored = true ↔ ∃ f t,
        ⟨.faults f, t⟩ ∈ m.mainLog o fuel ∧ t.exec.mode ≠ .none) ∧
      x.outcome.error = ((m.mainLog o fuel).filterMap Entry.fault?).getLast? ∧
      (x.waitFault = none → ∀ file s,
        (∃ d s', Job.finish file x s = .error (.failed d) s') ↔ x.outcome.errored = true) := by
  intro m
  refine ⟨fun es _ _ h => Machine.errored_iff_of_ending o world program active es h, ?_⟩
  intro fuel stop x h
  -- The main program of an execution has its turns in one of many orders.
  rcases Machine.exists_ending_of_ofMachine h with ⟨clock, hended, -⟩
  rw [(Machine.runUntil_eq_play Machine.mainEnded o fuel m).1] at hended
  rcases Machine.errored_iff_of_ending o world program active _ hended
    with ⟨hflag, hlast, hreport⟩
  rw [Machine.mainLog_eq]
  refine ⟨hflag, hlast, fun hwait file s => ?_⟩
  rcases x with ⟨outcome, world', fault⟩
  cases hwait
  exact hreport world' file s

theorem Execution.errored_iff_of_ofMachine_failing :
    ∃ x, Execution.ofMachine {} 9 false (Machine.start {} {} .failing) = some (.ok x) ∧
      x.outcome.errored = true ∧ x.outcome.error = some (.undefinedAddress 9) ∧
      ∃ d s', Job.finish "main.opc" x { host := {} } = .error (.failed d) s' := by
  have hrun : ∃ x, Execution.ofMachine {} 9 false (Machine.start {} {} .failing) = some (.ok x) ∧
      x.waitFault = none := ⟨_, rfl, rfl⟩
  have hcounts : ((Machine.start {} {} .failing).mainLog {} 9).any Entry.counts = true := by
    decide +kernel
  have hfaults : ((Machine.start {} {} .failing).mainLog {} 9).filterMap Entry.fault? =
      [.undefinedAddress 7, .undefinedAddress 8, .undefinedAddress 9] := by
    decide +kernel
  rcases hrun with ⟨x, hx, hwait⟩
  rcases (Execution.errored_iff_of_ofMachine {} {} .failing 0).2 9 false x hx
    with ⟨hflag, herror, hreport⟩
  have herrored := hflag.2 (Machine.any_counts_iff.1 hcounts)
  refine ⟨x, hx, herrored, ?_, (hreport hwait _ _).2 herrored⟩
  rw [herror, hfaults]
  rfl

/-- Read a cell that is not there. -/
def Program.faulty : List Instruction := [⟨0, 19, [[0, 0, 0, 9]]⟩]

/-- A program that is run in place meets a fault in a mode in which it counts, and leaves the mark
for it in the output; but the flag is not set, no error is left, and the report is no failure. -/
theorem Execution.not_errored_of_nested :
    ((Machine.inPlace Program.faulty).log {} 0 1 (List.replicate 4 (.turn 0))).any Entry.counts =
      true ∧
    ∃ x, Execution.ofMachine {} 9 false (Machine.inPlace Program.faulty) = some (.ok x) ∧
      x.outcome = ⟨errorMarker, false, none⟩ ∧ x.waitFault = none ∧
      ¬∃ d s', Job.finish "main.opc" x { host := {} } = .error (.failed d) s' := by
  refine ⟨by decide +kernel, ?_⟩
  have hrun : ∃ x, Execution.ofMachine {} 9 false (Machine.inPlace Program.faulty) =
      some (.ok x) ∧ x.outcome = ⟨errorMarker, false, none⟩ ∧ x.waitFault = none :=
    ⟨_, rfl, rfl, rfl⟩
  rcases hrun with ⟨x, hx, houtcome, hwait⟩
  refine ⟨x, hx, houtcome, hwait, ?_⟩
  rw [Job.finish_fails_iff _ hwait, houtcome]
  exact nofun

end CellMachine
