import CellMachine.Namespace
import CellMachine.Proofs.OrderedMap

/-!
# Snapshots

This module proves how snapshots and namespaces correspond. A byte string is accepted as a snapshot
if it consists of complete records, in whatever order and with whatever addresses; of two records
with one address the later counts. The snapshot of a namespace is one such byte string, the one in
which the addresses ascend.
-/

namespace CellMachine.Namespace

/-- The bytes of a record: the address of a cell, and its value as a frame. -/
def record (cell : UInt32 × Bytes) : Bytes := Bytes.ofWord cell.1 ++ cell.2.framed

/-- The input consists of the records of the cells, each complete. -/
def IsRecords (cells : List (UInt32 × Bytes)) (input : Bytes) : Prop :=
  (∀ cell ∈ cells, cell.2.length < 2 ^ 32) ∧ cells.flatMap record = input

def Fits (ns : Namespace) : Prop := ∀ cell ∈ ns.toList, cell.2.length < 2 ^ 32

variable {ns : Namespace} {cells : List (UInt32 × Bytes)} {input : Bytes}

/-! ## Records -/

theorem record_ne_nil (cell : UInt32 × Bytes) : record cell ≠ [] := by
  intro h
  have hlen := congrArg List.length h
  simp [record] at hlen

theorem inverts_readCell : readCell.Inverts record fun cell => cell.2.length < 2 ^ 32 :=
  .afterWord "snapshot address" Prod.fst fun address =>
    Reading.inverts_pair_frame "snapshot value" address

theorem runOn_readCell_eq_ok_iff :
    (Reading.toEnd readCell).runOn input = .ok cells ↔ IsRecords cells input :=
  Reading.runOn_toEnd_eq_ok_iff inverts_readCell record_ne_nil

/-- A byte string tells the records that it consists of. -/
theorem IsRecords.eq {cells' : List (UInt32 × Bytes)} (h : IsRecords cells input)
    (h' : IsRecords cells' input) : cells = cells' :=
  Reading.eq_of_flatMap_eq inverts_readCell record_ne_nil h.1 h'.1 (h.2.trans h'.2.symm)

/-! ## Snapshots -/

theorem ofSnapshot_eq_ok_iff :
    ofSnapshot input = .ok ns ↔ ∃ cells, IsRecords cells input ∧ OrderedMap.ofList cells = ns := by
  rw [ofSnapshot, Reading.map_runOn_eq_ok_iff]
  simp only [runOn_readCell_eq_ok_iff]

theorem ofSnapshot_of_isRecords (h : IsRecords cells input) :
    ofSnapshot input = .ok (OrderedMap.ofList cells) :=
  ofSnapshot_eq_ok_iff.2 ⟨cells, h, rfl⟩

theorem Fits.isRecords (h : ns.Fits) : IsRecords ns.toList ns.snapshot := ⟨h, rfl⟩

theorem ofSnapshot_snapshot (h : ns.Fits) : ofSnapshot ns.snapshot = .ok ns := by
  rw [ofSnapshot_of_isRecords h.isRecords, OrderedMap.ofList_toList]

/-- Only records in ascending order of addresses are a snapshot to the last byte. -/
theorem snapshot_ofList_eq_iff (h : IsRecords cells input) :
    snapshot (OrderedMap.ofList cells) = input ↔ (cells.map (·.1)).Pairwise (· < ·) := by
  rw [← OrderedMap.ascending_iff_pairwise fun _ _ => Std.compare_eq_lt, ← h.2]
  exact OrderedMap.flatMap_ofList_eq_iff inverts_readCell record_ne_nil h.1

/-! ## Restoring -/

theorem restore_snapshot (h : ns.Fits) (t : Namespace) :
    restore ns.snapshot t = .ok () ns := by
  rw [restore, ofSnapshot_snapshot h]

/-- What does not consist of complete records is refused, and nothing changes. -/
theorem restore_of_not_isRecords (h : ∀ cells, ¬IsRecords cells input) (t : Namespace) :
    ∃ e, restore input t = .error e t := by
  cases hread : ofSnapshot input with
  | ok ns =>
    rcases ofSnapshot_eq_ok_iff.1 hread with ⟨cells, hcells, -⟩
    exact absurd hcells (h cells)
  | error e => exact ⟨e, by rw [restore, hread]⟩

end CellMachine.Namespace
