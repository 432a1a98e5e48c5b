import CellMachine.Proofs.Machine.ActiveNamespace
import CellMachine.Proofs.Machine.Footprint
import CellMachine.Proofs.Machine.Schedule
import CellMachine.Proofs.Namespace

/-!
# Undoing changes of a namespace

This module proves that a snapshot which is taken into a cell brings the namespace back as it was,
whatever has been done to it in the meantime, as long as the cell with the snapshot is left alone.
The snapshot does not hold that cell, since it is taken before the cell is set.

What may happen in the meantime is a schedule of turns of any threads. `KeepCell` says that no step
of it touches the cell.
-/

namespace CellMachine

open Stateful

variable {o : Options} {i j : Instruction} {s t u : Focus} {slot : Slot} {id d : UInt32}
  {c ns : Namespace}

/-! ## Single instructions -/

theorem Table.memory_eq_ok_iff {table : Table} : table.memory id = .ok ns ↔
    ∃ slot, table.get? id = some slot ∧ slot.memory = ns := by
  unfold memory
  cases table.get? id <;> simp

theorem Focus.memory_withCells (s : Focus) (slot : Slot) (ns : Namespace) :
    (s.withCells slot ns).world.table.memory s.exec.active = .ok ns :=
  Table.memory_eq_ok_iff.2 ⟨_, OrderedMap.get?_insert_self _ _ _, rfl⟩

theorem Focus.handler?_withCells (hslot : s.slot? = some slot) (ns : Namespace) :
    (s.withCells slot ns).world.table.handler? s.exec.active =
      s.world.table.handler? s.exec.active := by
  have hget : s.world.table.get? s.exec.active = some slot := hslot
  simp [Table.handler?, Focus.withCells, OrderedMap.get?_insert_self, hget]

/-- The instruction 53 patches one cell, with the snapshot of the cells as they are. -/
theorem run_snapshot (hi : i.opcode = 53) (hd : i.address 0 = .ok d)
    (hc : s.world.table.memory s.exec.active = .ok c) :
    i.run o s = .ok (.flow .next) (s.patch ⟨d, some c.snapshot⟩) := by
  have hcode : Opcode.ofCode? i.opcode = some (.data .snapshot) := by
    rw [hi]
    decide +kernel
  have heval : DataOp.snapshot.eval i (.ok c) = .ok (d, c.snapshot) := by
    simp [DataOp.eval, DataOp.destination, DataOp.value, hd, bind, Except.bind, pure, Except.pure]
  have hdata := Action.data_eq .snapshot i s
  rw [hc, heval] at hdata
  rw [Instruction.run_of_code hcode]
  exact Action.atOnce_of_ok hdata

/-- The instruction 54 puts the cells of a snapshot in place of the present ones. -/
theorem run_restore {v : Bytes} (hj : j.opcode = 54) (hd : j.address 0 = .ok d)
    (hslot : s.slot? = some slot) (hv : slot.memory.get? d = some v)
    (hns : Namespace.restore v slot.memory = .ok () ns) :
    j.run o s = .ok (.flow .next) (s.withCells slot ns) := by
  have hcode : Opcode.ofCode? j.opcode = some .restore := by
    rw [hj]
    decide +kernel
  have hvalue : j.value slot.memory 0 = .ok v := by
    simp [Instruction.value, hd, bind, Except.bind, Namespace.load, hv]
  have hset := Action.setMemory_eq ns s
  rw [hslot] at hset
  have hrestore : Action.restore j s = .ok .next (s.withCells slot ns) := by
    refine (bind_of_ok (Action.reading_eq_ok_iff.2 ⟨rfl, slot, hslot, ?_⟩) _).trans
      (bind_of_ok hset _)
    simp [hvalue, hns, bind, Except.bind, pure, Except.pure]
  rw [Instruction.run_of_code hcode]
  exact Action.atOnce_of_ok hrestore

/-! ## Cells over time -/

/-- What a cell of a namespace holds, if there is such a cell. -/
def Table.cell? (t : Table) (id address : UInt32) : Option Bytes :=
  (t.get? id).bind fun slot => slot.memory.get? address

theorem Table.cell?_of_memory {table : Table} (h : table.memory id = .ok ns) (address : UInt32) :
    table.cell? id address = ns.get? address := by
  obtain ⟨slot, hslot, rfl⟩ := memory_eq_ok_iff.1 h
  rw [cell?, hslot, Option.bind_some]

/-- In each of the worlds the cell holds what it holds in the one before. -/
def KeepCell (id address : UInt32) : List World → Prop :=
  List.IsChain fun w w' => w'.table.cell? id address = w.table.cell? id address

instance (id address : UInt32) (ws : List World) : Decidable (KeepCell id address ws) :=
  inferInstanceAs (Decidable (List.IsChain
    (fun w w' => w'.table.cell? id address = w.table.cell? id address) ws))

theorem KeepCell.cell?_eq {w w' : World} {ws : List World}
    (h : KeepCell id d (w :: (ws ++ [w']))) : w'.table.cell? id d = w.table.cell? id d := by
  induction ws generalizing w with
  | nil => exact (List.isChain_cons_cons.1 h).1
  | cons v ws ih =>
    obtain ⟨hv, hrest⟩ := List.isChain_cons_cons.1 h
    exact (ih hrest).trans hv

/-- The worlds that a schedule goes through, the first and the last one included. -/
def Machine.worlds (o : Options) (m : Machine) (es : List Event) : List World :=
  (m.history o es).map (·.1.world) ++ [(m.play o es).world]

/-- Without a bound extension, the turn that dispatches an instruction leaves the table as the
instruction does. -/
theorem Machine.Dispatches.table_advance {m : Machine} {k : Nat} {f : Flow}
    (h : m.Dispatches o k j t) (hrun : j.run o t = .ok (.flow f) u)
    (hfree : u.world.table.handler? u.exec.active = none) :
    (m.advance o k).world.table = u.world.table := by
  obtain ⟨e, callers, hthread, hd⟩ := h
  have hattempt : Guarded.attempt (do Action.finish j f; return Turn.ready) u =
      .ok (some .ready) { u with exec := u.exec.follow f } := by
    unfold Guarded.attempt
    rw [bind_of_ok (Action.finish_of_none hfree j f)]
    rfl
  have hturn : Guarded.turn o ⟨m.world, e⟩ = .ok .ready { u with exec := u.exec.follow f } :=
    (Guarded.turn_of_flow hd hrun).trans (bind_of_ok hattempt _)
  unfold advance
  rw [hthread]
  simp only [hturn]
  rfl

theorem run_restore_of_cell? (hc : c.Fits) (hj : j.opcode = 54) (hd : j.address 0 = .ok d)
    (hcell : t.world.table.cell? t.exec.active d = some c.snapshot) :
    ∃ slot, t.slot? = some slot ∧ j.run o t = .ok (.flow .next) (t.withCells slot c) := by
  obtain ⟨slot, hslot, hv⟩ := Option.bind_eq_some_iff.1 hcell
  exact ⟨slot, hslot, run_restore hj hd hslot hv (Namespace.restore_snapshot hc slot.memory)⟩

/-! ## Snapshots -/

namespace Namespace

/-- Restoring is inverse to taking snapshots, and it happens as a whole or not at all. The last
part is about the machine: the thread `n` takes the snapshot, and the thread `k` restores it after
the schedule `es`, no step of which touches the cell that the snapshot is in. -/
theorem restore_inverts_snapshot :
    (∀ ns : Namespace, ns.Fits → ∀ t, restore ns.snapshot t = .ok () ns) ∧
    (∀ input ns, ofSnapshot input = .ok ns → ∃ cells,
      (∀ cells', IsRecords cells' input ↔ cells' = cells) ∧
      (∀ address, ns.get? address =
        (cells.filter fun cell => cell.1 = address).getLast?.map (·.2)) ∧
      (ns.snapshot = input ↔ (cells.map (·.1)).Pairwise (· < ·))) ∧
    (∀ input, (∀ cells, ¬IsRecords cells input) → ∀ t, ∃ e, restore input t = .error e t) ∧
    ∀ (o : Options) (m : Machine) (n : Nat) (i : Instruction) (s : Focus) (d : UInt32)
      (c : Namespace), m.Dispatches o n i s → i.opcode = 53 → i.address 0 = .ok d →
      s.world.table.memory s.exec.active = .ok c → c.Fits →
      ∃ u, i.run o s = .ok (.flow .next) u ∧
        u.world.table.memory s.exec.active = .ok (c.insert d c.snapshot) ∧
        ∀ (es : List Event) (k : Nat) (j : Instruction) (t : Focus),
          ((m.advance o n).play o es).Dispatches o k j t → j.opcode = 54 → j.address 0 = .ok d →
          t.exec.active = s.exec.active →
          KeepCell s.exec.active d (u.world :: ((m.advance o n).worlds o es ++ [t.world])) →
          ∃ u', j.run o t = .ok (.flow .next) u' ∧
            u'.world.table.memory s.exec.active = .ok c ∧
            (t.world.table.handler? s.exec.active = none →
              (((m.advance o n).play o es).advance o k).world.table.memory s.exec.active =
                .ok c) := by
  refine ⟨fun ns => restore_snapshot, ?_, fun input => restore_of_not_isRecords, ?_⟩
  · intro input ns h
    obtain ⟨cells, hcells, rfl⟩ := ofSnapshot_eq_ok_iff.1 h
    refine ⟨cells, fun cells' => ⟨fun h' => h'.eq hcells, fun h' => h' ▸ hcells⟩, ?_, ?_⟩
    · exact OrderedMap.get?_ofList cells
    · exact snapshot_ofList_eq_iff hcells
  · intro o m n i s d c _ hi hd hc hfits
    have hmemory : (s.patch ⟨d, some c.snapshot⟩).world.table.memory s.exec.active =
        .ok (c.insert d c.snapshot) := by
      rw [Focus.patch, Table.memory_patch, hc, Except.map, if_pos rfl, patch]
    refine ⟨_, run_snapshot hi hd hc, hmemory, ?_⟩
    intro es k j t hdispatched hj hd' hactive hkept
    have hset : (s.patch ⟨d, some c.snapshot⟩).world.table.cell? s.exec.active d =
        some c.snapshot := by
      rw [Table.cell?_of_memory hmemory, OrderedMap.get?_insert_self]
    rw [← hkept.cell?_eq, ← hactive] at hset
    obtain ⟨slot', hslot', hrun⟩ := run_restore_of_cell? hfits hj hd' hset
    rw [← hactive]
    refine ⟨_, hrun, t.memory_withCells slot' _, fun hfree => ?_⟩
    rw [hdispatched.table_advance hrun ((Focus.handler?_withCells hslot' _).trans hfree)]
    exact t.memory_withCells slot' _

end Namespace

/-- A namespace with one cell, and a program that takes a snapshot of it into another cell, sets a
third one, deletes the first one and restores the snapshot. -/
def Machine.checkpointed : Machine :=
  .start {} { table := Table.initial.insert 0 { memory := .ofList [(1, [120])] } }
    (.ofList [⟨0, 53, [[9]]⟩, ⟨1, 2, [[121], [2]]⟩, ⟨2, 19, [[1]]⟩, ⟨3, 54, [[9]]⟩])

theorem Namespace.restore_inverts_snapshot_checkpointed :
    let m := (Machine.checkpointed.advance {} 0).play {} [.turn 0, .turn 0]
    (m.world.table.cell? 0 1 = none ∧ m.world.table.cell? 0 2 = some [121]) ∧
      (m.advance {} 0).world.table.memory 0 = .ok (.ofList [(1, [120])]) := by
  have hfits : Namespace.Fits (.ofList [(1, [120])]) := by
    unfold Namespace.Fits
    decide +kernel
  obtain ⟨u, hu, -, h⟩ := Namespace.restore_inverts_snapshot.2.2.2 {} .checkpointed 0
    ⟨0, 53, [[9]]⟩ _ 9 (.ofList [(1, [120])]) ⟨_, _, rfl, rfl, rfl, rfl, rfl, rfl⟩ rfl rfl rfl hfits
  cases hu.symm.trans (run_snapshot rfl rfl rfl)
  obtain ⟨-, -, -, hrestored⟩ := h [.turn 0, .turn 0] 0 ⟨3, 54, [[9]]⟩ _
    ⟨_, _, rfl, rfl, rfl, rfl, rfl, rfl⟩ rfl rfl rfl (by decide +kernel)
  exact ⟨by decide +kernel, hrestored rfl⟩

end CellMachine
