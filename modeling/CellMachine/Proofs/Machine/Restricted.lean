import CellMachine.Proofs.Machine.Schedule
import CellMachine.Proofs.Machine.Spawn

/-!
# Restricted programs

This module proves that a program that is no superuser cannot get around the restriction of its
primary files: whatever it does and in whatever order its threads move, the files stay as they are,
and it never runs a program out of a file. Neither running other programs in place nor turning to
the files of a bundle helps.
-/

namespace CellMachine

open Stateful

/-- An instruction that imports a program file. -/
def Instruction.Imports (i : Instruction) : Prop := Opcode.ofCode? i.opcode = some .importModule

def Focus.HasPrimary (p : Provider) (s : Focus) : Prop := s.world.primary = p

variable {o : Options} {p : Provider} {s t : Focus} {i : Instruction}

/-- Restricted primary files do not change under a program that is no superuser. -/
theorem passive_hasPrimary (ho : o.superuser = false) (hp : p.isRestricted = true) :
    Passive o (Focus.HasPrimary p) where
  storage {s q t} hs hq ht := by
    unfold Focus.HasPrimary Focus.withStorage
    rw [Action.provider_eq_ok_iff] at hq
    cases huses : s.exec.usesBundle with
    | true => exact hs
    | false =>
      -- The files in use are the primary ones.
      rw [huses] at hq
      have hqp : q = p := (hq : s.world.primary = q).symm.trans hs
      subst hqp
      exact ht.provider ho hp
  table _ hs := hs
  input _ hs := hs
  sink _ hs := hs
  stopped hs := hs
  binds _ hs := hs
  notes _ hs := hs
  calls _ hs := hs
  output _ hs := hs
  mode _ hs := hs
  active _ hs := hs
  files _ hs := hs
  clock _ hs := hs

/-- An import fails before it has read the file, and changes nothing. -/
theorem Instruction.run_eq_error_of_imports (ho : o.superuser = false) (hp : p.isRestricted = true)
    (hs : s.HasPrimary p) (hi : i.Imports) : ∃ f, i.run o s = .error (.fault f) s := by
  have hrun : i.run o s = Action.importModule o i s := by
    rw [Instruction.run, hi]
    rfl
  rw [hrun]
  unfold Action.importModule
  have hrefused (name : String) :
      ∃ f, Action.checkRestricted o "import" name s = .error (.fault f) s := by
    unfold Action.checkRestricted
    rw [get_bind, (hs : s.world.primary = p), hp, ho]
    exact ⟨_, rfl⟩
  rcases Action.reading_cases (fun ns => do
    let name ← i.text ns 0
    return (name, ← i.uint ns 1)) s with ⟨⟨name, id⟩, hread⟩ | ⟨f, hread⟩
  · rw [bind_of_ok hread]
    dsimp only
    rw [get_bind]
    cases s.world.table.contains id with
    | false => exact ⟨_, rfl⟩
    | true =>
      rcases hrefused name with ⟨f, hf⟩
      exact ⟨f, bind_of_error hf _⟩
  · exact ⟨f, bind_of_error hread _⟩

/-- No instruction changes restricted primary files, whether it changes the program or not. -/
theorem Instruction.maintains_hasPrimary (ho : o.superuser = false) (hp : p.isRestricted = true)
    (hs : s.HasPrimary p) (i : Instruction) : Maintains (Focus.HasPrimary p) s (i.run o) := by
  refine (passive_hasPrimary ho hp).ensures_instruction hs i ?_ ?_ ?_
  · intro effect t ht _
    exact ht
  · intro byLabel joined _
    refine Opcode.ensures_spawn hs (fun _ _ _ => hs) fun first past _ => ?_
    unfold Focus.HasPrimary Focus.parted
    cases joined <;> exact hs
  · intro _
    exact Opcode.ensures_loadProgram hs fun _ _ _ => hs

/-- The primary files stay as they are, and no executor waits for a module that it imports. -/
theorem invariant_hasPrimary (ho : o.superuser = false) (hp : p.isRestricted = true) :
    Machine.Invariant o (fun _ => True) (fun w => w.primary = p) (fun _ => True)
      (fun i _ => ¬i.Imports) := by
  have hstable := (passive_hasPrimary ho hp).stable
  -- Nothing is asked of executors that are to have threads.
  have hworld (t : Focus) (ht : t.HasPrimary p) :
      t.world.Holds (fun w => w.primary = p) fun _ => True := ⟨ht, fun _ _ => trivial⟩
  refine ⟨fun _ hw => hw, fun hw => hw, fun _ hw => hw, ?_, ?_, ?_⟩
  · intro w e hw _ _ _
    have hturn : Ensures (Focus.HasPrimary p) ⟨w, e⟩ (Guarded.turn o) fun turn t =>
        t.HasPrimary p ∧ turn.Holds (fun _ => True) (fun i _ => ¬i.Imports) t.exec := by
      refine Guarded.ensures_turn hstable (K := fun _ => Focus.HasPrimary p) (fun _ => hstable)
        ?_ ?_ ?_ ?_ ?_ ?_
      · intro _
        exact ⟨hw, trivial⟩
      · intro _
        exact ⟨hw, hw⟩
      · intro i t _ ht
        have hmaintained := Instruction.maintains_hasPrimary ho hp ht i
        cases hrun : i.run o t with
        | error e u => exact ensures_of_error hrun (hmaintained.of_error hrun)
        | ok effect u =>
          have hu := hmaintained.of_ok hrun
          have hi : ¬i.Imports := by
            intro hi
            rcases Instruction.run_eq_error_of_imports ho hp ht hi with ⟨f, hf⟩
            rw [hf] at hrun
            cases hrun
          refine ensures_of_ok hrun ?_
          cases effect with
          | flow f => exact hu
          | call callee r => exact ⟨hu, hi, trivial⟩
          | join child => exact ⟨hu, hi, trivial⟩
      · intro _ f t ht
        exact ht
      · intro f t ht
        exact ⟨ht, trivial⟩
      · intro f t ht
        exact ⟨ht, trivial⟩
    exact hturn.mono hworld fun _ t h => ⟨hworld t h.1, h.2⟩
  · intro w e i clock r outcome hw _ _
    have hreceive := Guarded.ensures_receive (s := ⟨w, { e with clock }⟩) hstable hw i r outcome
      (Q := Focus.HasPrimary p) (fun _ ht => ht) fun _ _ ht => ht
    exact hreceive.mono hworld fun _ t ht => ⟨hworld t ht, trivial⟩
  · intro w e i clock result hw _ _
    have hreceive := Guarded.ensures_receiveJoined (s := ⟨w, { e with clock }⟩) hstable hw i result
      (Q := Focus.HasPrimary p) (fun _ ht => ht) fun _ _ ht => ht
    exact hreceive.mono hworld fun _ t ht => ⟨hworld t ht, trivial⟩

theorem Machine.holds_restricted (ho : o.superuser = false) (hp : p.isRestricted = true)
    {world : World} (hworld : world.primary = p) (harrivals : world.arrivals = []) (q : Program)
    (active : UInt32) (es : List Event) :
    ((Machine.start o world q active).play o es).Holds (fun w => w.primary = p) (fun _ => True)
      (fun i _ => ¬i.Imports) := by
  have hstart : (Machine.start o world q active).Holds (fun w => w.primary = p) (fun _ => True)
      (fun i _ => ¬i.Imports) := Machine.holds_start hworld harrivals trivial
  exact hstart.play (invariant_hasPrimary ho hp) fun _ _ _ _ _ _ _ => trivial

/-- Restricted files in memory are the same after every schedule of a program that is no superuser,
every import that is dispatched fails, and no executor runs a module that another one imports. -/
theorem Machine.primary_eq_of_restricted (o : Options) (world : World) (files : FileMap)
    (p : Program) (active : UInt32) (es : List Event) :
    let o' : Options := { o with superuser := false }
    let w : World := { world with primary := .memory files true, arrivals := [] }
    let m : Machine := (Machine.start o' w p active).play o' es
    m.world.primary = .memory files true ∧
      (∀ n i t, m.Dispatches o' n i t → i.Imports → ∃ f, i.run o' t = .error (.fault f) t) ∧
      ∀ (n : Nat) (e : Executor) (callers : List Suspended),
        m.threads[n]? = some (.running e callers) → ∀ c ∈ callers, ¬c.instruction.Imports := by
  intro o' w m
  have ho : o'.superuser = false := rfl
  have hp : (Provider.memory files true).isRestricted = true := rfl
  have hm : m.Holds (fun w => w.primary = .memory files true) (fun _ => True)
      (fun i _ => ¬i.Imports) := Machine.holds_restricted ho hp rfl rfl p active es
  refine ⟨hm.world, ?_, ?_⟩
  · rintro n i t ⟨e, callers, -, hdispatched⟩ hi
    -- The hook in front of the instruction leaves the files alone as well.
    have hcounted : (Focus.counted ⟨m.world, e⟩).HasPrimary (.memory files true) := hm.world
    have hbefore := (passive_hasPrimary ho hp).maintains_callHook hcounted .before i
    exact Instruction.run_eq_error_of_imports ho hp (hbefore.of_ok hdispatched.before) hi
  · intro n e callers hthread
    exact (hm.threads _ (List.mem_of_getElem? hthread)).2

end CellMachine
