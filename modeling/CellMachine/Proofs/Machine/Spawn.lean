import CellMachine.Machine.Turn
import CellMachine.Proofs.Machine.Action
import CellMachine.Proofs.Program

/-!
# Instructions that spawn

This module proves what the instructions do that take a part out of the program for a thread of its
own. What they ask for is checked before anything is changed. The host comes last: if it gives no
thread, the instruction fails, and the part is lost.
-/

namespace CellMachine

open Stateful

/-- The positions that a spawning instruction asks for: those that the labels in its arguments name,
or the numbers in the cells that the arguments name. -/
def Instruction.Asks (i : Instruction) (byLabel : Bool) (s : Focus) (first past : Nat) : Prop :=
  match byLabel with
  | true => Action.label i s.exec.program 0 = .ok first ∧ Action.label i s.exec.program 1 = .ok past
  | false => ∃ slot a b, s.slot? = some slot ∧ i.uint slot.memory 0 = .ok a ∧
      i.uint slot.memory 1 = .ok b ∧ a.toNat = first ∧ b.toNat = past

/-- The spawn `i` takes the positions from `first` up to `past` out of the program. -/
structure Focus.Cuts (s : Focus) (i : Instruction) (byLabel : Bool) (first past : Nat) : Prop where
  asked : i.Asks byLabel s first past
  ordered : first ≤ past
  within : past ≤ s.exec.program.size
  outside : ¬(first ≤ s.exec.ip ∧ s.exec.ip < past)

/-- The spawning instruction `i` is granted the positions from `first` up to `past`. -/
structure Focus.Grants (s : Focus) (i : Instruction) (byLabel : Bool) (first past : Nat) : Prop
    extends s.Cuts i byLabel first past where
  given : s.world.host.refusal = none

/-- The host refuses the thread for the positions that the spawning instruction `i` takes out. -/
structure Focus.Refuses (s : Focus) (i : Instruction) (byLabel : Bool) (first past : Nat) : Prop
    extends s.Cuts i byLabel first past where
  notGiven : s.world.host.refusal ≠ none

/-- An executor without a part of its program, at the place of its present instruction. -/
def Executor.without (e : Executor) (first past : Nat) : Executor :=
  { e with program := (e.program.cut first past).1
           ip := if past ≤ e.ip then e.ip - (past - first) else e.ip }

/-- The state after a part of the program is taken out and lost. -/
def Focus.bereft (s : Focus) (first past : Nat) : Focus :=
  { s with exec := s.exec.without first past }

def Executor.part (e : Executor) (first past : Nat) : Executor :=
  Action.offspring e (e.program.cut first past).2 e.active

/-- The state after a spawn. The executor that starts is in the world if nobody waits for it. -/
def Focus.parted (s : Focus) (joined : Bool) (first past : Nat) : Focus where
  world :=
    if joined then s.world
    else { s.world with arrivals := s.world.arrivals ++ [s.exec.part first past] }
  exec := s.exec.without first past

def Executor.parting (e : Executor) (joined : Bool) (first past : Nat) : Effect :=
  if joined then .join (e.part first past) else .flow .next

variable {o : Options} {s t : Focus} {i : Instruction} {byLabel joined : Bool} {first past : Nat}

/-- The position that is left has been that of the spawning instruction. -/
theorem Executor.origin_without {e : Executor} (hordered : first ≤ past)
    (houtside : ¬(first ≤ e.ip ∧ e.ip < past)) :
    Program.origin first past (e.without first past).ip = e.ip := by
  change Program.origin first past (if past ≤ e.ip then e.ip - (past - first) else e.ip) = e.ip
  unfold Program.origin
  split <;> split <;> omega

theorem Action.checkRange_eq_ok_iff {size ip : Nat} {u : Unit} :
    checkRange first past size ip = .ok u ↔
      first ≤ past ∧ past ≤ size ∧ ¬(first ≤ ip ∧ ip < past) := by
  unfold checkRange
  split
  · simp only [reduceCtorEq, false_iff]
    omega
  · split
    · simp only [reduceCtorEq, false_iff]
      omega
    · simp only [true_iff]
      omega

theorem Action.askForThread_of_none (h : s.world.host.refusal = none) :
    askForThread s = .ok () s := by
  simp only [askForThread, get_bind, h]
  rfl

theorem Action.askForThread_of_some {reason : String} (h : s.world.host.refusal = some reason) :
    askForThread s = .error (.fault (.io (.noThread reason))) s := by
  simp only [askForThread, get_bind, h]
  rfl

theorem Action.spawn_eq (first past : Nat) (joined : Bool) (s : Focus) :
    spawn first past joined s =
      match checkRange first past s.exec.program.size s.exec.ip, s.world.host.refusal with
      | .ok _, none => .ok (s.exec.parting joined first past) (s.parted joined first past)
      | .ok _, some reason => .error (.fault (.io (.noThread reason))) (s.bereft first past)
      | .error f, _ => .error (.fault f) s := by
  unfold spawn
  rw [get_bind]
  cases checkRange first past s.exec.program.size s.exec.ip with
  | error f => rfl
  | ok u =>
    -- The host is asked in the state whose program is cut already.
    change (askForThread >>= _ : Action Effect) (s.bereft first past) = _
    cases hrefusal : s.world.host.refusal with
    | none =>
      rw [bind_of_ok (askForThread_of_none (s := s.bereft first past) hrefusal)]
      cases joined <;> rfl
    | some reason =>
      exact bind_of_error (askForThread_of_some (s := s.bereft first past) hrefusal) _

/-- What a spawning instruction may come to in the state `s`: it is granted what it asks for, or the
host refuses the thread when the part is taken out, or it fails and changes nothing. -/
inductive Opcode.Spawns (i : Instruction) (byLabel joined : Bool) (s : Focus) :
    EStateM.Result Abort Focus Effect → Prop where
  | granted {first past : Nat} : s.Grants i byLabel first past →
      Spawns i byLabel joined s
        (.ok (s.exec.parting joined first past) (s.parted joined first past))
  | refused {first past : Nat} {reason : String} : s.Cuts i byLabel first past →
      s.world.host.refusal = some reason →
      Spawns i byLabel joined s (.error (.fault (.io (.noThread reason))) (s.bereft first past))
  | failed {f : Fault} : Spawns i byLabel joined s (.error (.fault f) s)

/-- Once the positions are known, the check of the range and the host decide. -/
theorem Opcode.run_spawn_of_asks (o : Options) (joined : Bool) (h : i.Asks byLabel s first past) :
    (spawn byLabel joined).run o i s = Action.spawn first past joined s := by
  cases byLabel with
  | true =>
    have hrun : (spawn true joined).run o i s =
        (do
          let first ← Action.ofExcept (Action.label i s.exec.program 0)
          let past ← Action.ofExcept (Action.label i s.exec.program 1)
          Action.spawn first past joined : Action Effect) s := rfl
    rw [hrun, h.1, h.2]
    rfl
  | false =>
    rcases h with ⟨slot, a, b, hslot, ha, hb, rfl, rfl⟩
    have hread := Action.reading_eq (fun ns => do
      let first ← i.uint ns 0
      return (first, ← i.uint ns 1)) s
    simp only [hslot, ha, hb] at hread
    exact bind_of_ok hread _

theorem Opcode.spawns_of_asks (o : Options) (h : i.Asks byLabel s first past) :
    Spawns i byLabel joined s ((spawn byLabel joined).run o i s) := by
  rw [run_spawn_of_asks o joined h, Action.spawn_eq]
  cases hcheck : Action.checkRange first past s.exec.program.size s.exec.ip with
  | error f => exact .failed
  | ok u =>
    rcases Action.checkRange_eq_ok_iff.1 hcheck with ⟨hordered, hwithin, houtside⟩
    have hcuts : s.Cuts i byLabel first past := ⟨h, hordered, hwithin, houtside⟩
    cases hrefusal : s.world.host.refusal with
    | none => exact .granted ⟨hcuts, hrefusal⟩
    | some reason => exact .refused hcuts hrefusal

theorem Opcode.spawn_cases (o : Options) (i : Instruction) (byLabel joined : Bool) (s : Focus) :
    Spawns i byLabel joined s ((spawn byLabel joined).run o i s) := by
  cases byLabel with
  | true =>
    have hrun : (spawn true joined).run o i s =
        (do
          let first ← Action.ofExcept (Action.label i s.exec.program 0)
          let past ← Action.ofExcept (Action.label i s.exec.program 1)
          Action.spawn first past joined : Action Effect) s := rfl
    cases hfirst : Action.label i s.exec.program 0 with
    | error f =>
      rw [hrun, hfirst]
      exact .failed
    | ok first =>
      cases hpast : Action.label i s.exec.program 1 with
      | error f =>
        rw [hrun, hfirst, hpast]
        exact .failed
      | ok past => exact spawns_of_asks o ⟨hfirst, hpast⟩
  | false =>
    change Spawns i false joined s (Action.spawnCells joined i s)
    unfold Action.spawnCells
    have hread := Action.reading_eq (fun ns => do
      let first ← i.uint ns 0
      return (first, ← i.uint ns 1)) s
    cases hslot : s.slot? with
    | none =>
      rw [hslot] at hread
      rw [bind_of_error hread]
      exact .failed
    | some slot =>
      simp only [hslot] at hread
      cases hfirst : i.uint slot.memory 0 with
      | error f =>
        rw [hfirst] at hread
        rw [bind_of_error hread]
        exact .failed
      | ok first =>
        cases hpast : i.uint slot.memory 1 with
        | error f =>
          rw [hfirst, hpast] at hread
          rw [bind_of_error hread]
          exact .failed
        | ok past => exact spawns_of_asks o ⟨slot, first, past, hslot, hfirst, hpast, rfl, rfl⟩

/-- A spawn whose thread the host refuses fails when the part is taken out. -/
theorem Opcode.run_spawn_of_refuses (o : Options) (joined : Bool)
    (h : s.Refuses i byLabel first past) : ∃ reason, (spawn byLabel joined).run o i s =
      .error (.fault (.io (.noThread reason))) (s.bereft first past) := by
  have hcheck : Action.checkRange first past s.exec.program.size s.exec.ip = .ok () :=
    Action.checkRange_eq_ok_iff.2 ⟨h.ordered, h.within, h.outside⟩
  rcases Option.ne_none_iff_exists'.1 h.notGiven with ⟨reason, hrefusal⟩
  refine ⟨reason, ?_⟩
  rw [run_spawn_of_asks o joined h.asked, Action.spawn_eq, hcheck, hrefusal]

theorem Opcode.spawn_eq_ok {effect : Effect}
    (h : (spawn byLabel joined).run o i s = .ok effect t) :
    ∃ first past, s.Grants i byLabel first past ∧ effect = s.exec.parting joined first past ∧
      t = s.parted joined first past := by
  have hcases := spawn_cases o i byLabel joined s
  rw [h] at hcases
  cases hcases with
  | granted hgrants => exact ⟨_, _, hgrants, rfl, rfl⟩

end CellMachine
