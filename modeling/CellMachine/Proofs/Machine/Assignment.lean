import CellMachine.Proofs.Machine.Footprint

/-!
# Assignments

This module proves that a data instruction which does not fail is an assignment: it sets one cell of
the active namespace and changes nothing else (`Instruction.assigns`). Which cell it sets is told by
one of its arguments, and for one opcode by a cell.

The new value is computed from the `Operand`s of the operation, as they are before the cell is set.
Two instructions whose operands show the same set their cells to the same value, wherever the
operands and the cells are; so it does not matter whether the cell that is set is itself an operand.
-/

namespace CellMachine

open Stateful

variable {i j : Instruction} {ns ns' : Namespace} {v : Bytes}

/-! ## Operands -/

inductive Operand where
  -- The argument `n` itself.
  | literal (n : Nat)
  -- The cell that the argument `n` names.
  | cell (n : Nat)
  -- The cell whose address is in the cell that the argument `n` names.
  | pointed (n : Nat)
  -- The addresses of the namespace.
  | addresses
  -- All cells of the namespace.
  | cells
  deriving DecidableEq

/-- The operand shows the same to both instructions, each in its namespace. -/
def Operand.Same (i j : Instruction) (ns ns' : Namespace) : Operand → Prop
  | literal n => i.arg n = j.arg n
  | cell n => i.value ns n = j.value ns' n
  | pointed n => i.uint ns n >>= ns.load = j.uint ns' n >>= ns'.load
  | addresses => ns.keys = ns'.keys
  | cells => ns = ns'

namespace DataOp

def operands : DataOp → List Operand
  | store => [.literal 0]
  | copy | length | not | reverse | convert _ => [.cell 0]
  | concat | keepFront | dropFront | replicate | compare | uint _ | sint _ | float _ | big _ =>
    [.cell 0, .cell 1]
  | insert | removeRange | slice => [.cell 0, .cell 1, .cell 2]
  | loadIndirect => [.pointed 0]
  | storeIndirect => [.cell 1]
  | listAddresses => [.addresses]
  | snapshot => [.cells]

theorem value_eq_of_same {op : DataOp} (h : ∀ x ∈ op.operands, x.Same i j ns ns') :
    op.value i ns = op.value j ns' := by
  cases op with
  | store | loadIndirect | storeIndirect =>
    simp only [operands, List.forall_mem_singleton, Operand.Same] at h
    exact h
  | copy | length | not | reverse | listAddresses | snapshot =>
    simp only [operands, List.forall_mem_singleton, Operand.Same] at h
    simp only [value, Instruction.uint, h]
  | convert c =>
    simp only [operands, List.forall_mem_singleton, Operand.Same] at h
    simp only [value, Conversion.value, Instruction.uint, Instruction.sint, Instruction.float,
      Instruction.text, h]
  | concat | keepFront | dropFront | replicate | compare | uint _ | sint _ | float _ | big _
  | insert | removeRange | slice =>
    simp only [operands, List.forall_mem_cons, Operand.Same] at h
    simp only [value, Instruction.uint, Instruction.sint, Instruction.float, h]

end DataOp

/-! ## Destinations -/

inductive Destination where
  -- The argument `n` is the address.
  | argument (n : Nat)
  -- The address is in the cell that the argument `n` names.
  | pointer (n : Nat)
  deriving DecidableEq

namespace Destination

def address (i : Instruction) (ns : Namespace) : Destination → Except Fault UInt32
  | argument n => i.address n
  | pointer n => i.uint ns n

/-- The numbers of the opcodes that set the cell with this address. -/
def codes : Destination → List Nat
  | argument 0 => [6, 7, 8, 45, 53, 83]
  | argument 1 => [2, 3, 5, 9, 18, 62, 87] ++ List.range' 39 6 ++ List.range' 153 6
  | argument 2 => [4, 116] ++ (List.range' 10 8 ++ List.range' 31 8 ++ [69, 70, 85, 86, 123, 124] ++
      List.range' 145 8)
  | argument 3 => [26]
  | pointer 0 => [63]
  | _ => []

end Destination

/-- The numbers of the opcodes that compute a value and store it: on cells, arithmetic, and
conversions. -/
def Opcode.dataCodes : List Nat :=
  List.range' 2 8 ++ [18, 26, 45, 53, 62, 63, 83, 87, 116] ++
    (List.range' 10 8 ++ List.range' 31 8 ++ [69, 70, 85, 86, 123, 124] ++ List.range' 145 8) ++
    (List.range' 39 6 ++ List.range' 153 6)

namespace DataOp

def place : DataOp → Destination
  | storeIndirect => .pointer 0
  | op => .argument op.destination

theorem eval_eq_ok_iff {op : DataOp} {a : UInt32} : op.eval i (.ok ns) = .ok (a, v) ↔
    op.place.address i ns = .ok a ∧ op.value i ns = .ok v := by
  cases op with
  | store =>
    -- The literal is looked at first.
    simp only [eval, place, Destination.address, destination, value, except_bind_eq_ok_iff, pure,
      Except.pure, Except.ok.injEq, Prod.mk.injEq]
    grind
  | _ =>
    simp only [eval, place, Destination.address, except_bind_eq_ok_iff, pure, Except.pure,
      Except.ok.injEq, Prod.mk.injEq]
    grind

end DataOp

namespace Opcode

/-- The operation of an opcode that computes a value and stores it. -/
def dataOp? : Opcode → Option DataOp
  | data op => some op
  | _ => none

theorem eq_data_of_dataOp? {opcode : Opcode} {op : DataOp} (h : opcode.dataOp? = some op) :
    opcode = .data op := by
  cases opcode with
  | data op' => exact congrArg data (Option.some.inj h)
  | _ => cases h

/-- Every opcode that stores a value is in the list, and sets the cell that it is listed under. -/
theorem mem_codes_of_data {code : UInt32} {op : DataOp} (h : ofCode? code = some (.data op)) :
    code.toNat ∈ dataCodes ∧ code.toNat ∈ op.place.codes := by
  have hentries : ∀ e ∈ table, ∀ op ∈ e.op.dataOp?,
      e.code ∈ dataCodes ∧ e.code ∈ op.place.codes := by
    decide +kernel
  rcases exists_mem_table_of_ofCode? h with ⟨e, he, hcode, hop⟩
  rw [← hcode]
  exact hentries e he op (by rw [hop]; rfl)

theorem mem_dataCodes_iff {code : UInt32} :
    code.toNat ∈ dataCodes ↔ ∃ op, ofCode? code = some (.data op) := by
  have hlisted : ∀ n ∈ dataCodes, ((ofCode? (UInt32.ofNat n)).bind dataOp?).isSome := by
    decide +kernel
  constructor
  · intro h
    have hcode := hlisted _ h
    rw [UInt32.ofNat_toNat] at hcode
    rcases Option.isSome_iff_exists.1 hcode with ⟨op, hop⟩
    rcases Option.bind_eq_some_iff.1 hop with ⟨opcode, hopcode, hdata⟩
    exact ⟨op, eq_data_of_dataOp? hdata ▸ hopcode⟩
  · rintro ⟨op, hop⟩
    exact (mem_codes_of_data hop).1

end Opcode

/-! ## Assignments -/

/-- The state `t` is the state `s` with one cell of the active namespace set. -/
structure Focus.Assigns (s t : Focus) (a : UInt32) (v : Bytes) : Prop where
  exec : t.exec = s.exec
  -- The table is all of the world that is not as it was.
  world : t.world = { s.world with table := t.world.table }
  -- The same namespaces exist.
  contains : ∀ id, t.world.table.contains id = s.world.table.contains id
  -- The same extensions are bound to them.
  handlers : ∀ id, t.world.table.handler? id = s.world.table.handler? id
  -- The namespaces that are not active are as they were.
  others : ∀ id, id ≠ s.exec.active → t.world.table.get? id = s.world.table.get? id
  -- So are the other cells of the active one.
  cells : ∃ ns ns', s.world.table.memory s.exec.active = .ok ns ∧
    t.world.table.memory s.exec.active = .ok ns' ∧
    ∀ b, ns'.get? b = if b = a then some v else ns.get? b

theorem Focus.assigns_patch {s : Focus} (h : s.world.table.memory s.exec.active = .ok ns)
    (a : UInt32) (v : Bytes) : s.Assigns (s.patch ⟨a, some v⟩) a v where
  exec := rfl
  world := rfl
  contains id := by
    rw [OrderedMap.contains, OrderedMap.contains, patch, Table.get?_patch, Option.isSome_map]
  handlers id := Table.handler?_patch s.world.table s.exec.active id _
  others id hid := by
    simp only [patch, Table.get?_patch, if_neg hid, Option.map_id']
  cells := by
    refine ⟨ns, ns.patch ⟨a, some v⟩, h, ?_, fun b => ns.get?_patch _ b⟩
    simp only [patch, Table.memory_patch, h, Except.map, if_true]

/-- An instruction that computes a value and stores it comes to no more than that. -/
theorem Instruction.run_of_data {op : DataOp} (h : Opcode.ofCode? i.opcode = some (.data op))
    (o : Options) (s : Focus) : i.run o s = Action.atOnce (.data op i) s := by
  rw [run, h]
  rfl

theorem Instruction.run_data_eq_ok_iff {op : DataOp}
    (h : Opcode.ofCode? i.opcode = some (.data op)) {o : Options} {s t : Focus} {e : Effect} :
    i.run o s = .ok e t ↔ e = .flow .next ∧ ∃ ns a v,
      s.world.table.memory s.exec.active = .ok ns ∧ op.place.address i ns = .ok a ∧
      op.value i ns = .ok v ∧ t = s.patch ⟨a, some v⟩ := by
  have hdata := Action.data_eq op i s
  rw [run_of_data h]
  cases hmemory : s.world.table.memory s.exec.active with
  | error f =>
    cases heval : op.eval i (.error f) with
    | ok r => exact absurd heval (op.eval_ne_ok i f r)
    | error f' =>
      rw [hmemory, heval] at hdata
      rw [Action.atOnce_of_error hdata]
      exact ⟨nofun, nofun⟩
  | ok ns =>
    rw [hmemory] at hdata
    cases heval : op.eval i (.ok ns) with
    | error f =>
      rw [heval] at hdata
      rw [Action.atOnce_of_error hdata]
      refine ⟨nofun, ?_⟩
      rintro ⟨-, ns', a, v, hns, haddress, hvalue, -⟩
      cases hns
      have hok := DataOp.eval_eq_ok_iff.2 ⟨haddress, hvalue⟩
      rw [heval] at hok
      cases hok
    | ok r =>
      rw [heval] at hdata
      rw [Action.atOnce_of_ok hdata]
      constructor
      · intro h
        cases h
        rcases DataOp.eval_eq_ok_iff.1 heval with ⟨haddress, hvalue⟩
        exact ⟨rfl, ns, r.1, r.2, rfl, haddress, hvalue, rfl⟩
      · rintro ⟨rfl, ns', a, v, hns, haddress, hvalue, rfl⟩
        cases hns
        have hok := DataOp.eval_eq_ok_iff.2 ⟨haddress, hvalue⟩
        rw [heval] at hok
        cases hok
        rfl

/-- A data instruction that does not fail sets one cell of the active namespace, the one that its
opcode is listed under, and changes nothing else. The value is computed from the cells as they
were, and an instruction with the same opcode whose operands show the same, with whatever
destination and in whatever state, stores the same value. -/
theorem Instruction.assigns {o : Options} {i : Instruction} {s t : Focus} {e : Effect}
    (hi : i.opcode.toNat ∈ Opcode.dataCodes) (h : i.run o s = .ok e t) :
    e = .flow .next ∧ ∃ op d ns a v, Opcode.ofCode? i.opcode = some (.data op) ∧
      i.opcode.toNat ∈ Destination.codes d ∧ s.world.table.memory s.exec.active = .ok ns ∧
      d.address i ns = .ok a ∧ op.value i ns = .ok v ∧ s.Assigns t a v ∧
      ∀ (o' : Options) (j : Instruction) (s' : Focus) (ns' : Namespace) (a' : UInt32),
        j.opcode = i.opcode → s'.world.table.memory s'.exec.active = .ok ns' →
        d.address j ns' = .ok a' → (∀ x ∈ op.operands, x.Same i j ns ns') →
        ∃ t', j.run o' s' = .ok (.flow .next) t' ∧ s'.Assigns t' a' v := by
  rcases Opcode.mem_dataCodes_iff.1 hi with ⟨op, hop⟩
  rcases (run_data_eq_ok_iff hop).1 h with ⟨rfl, ns, a, v, hmemory, haddress, hvalue, rfl⟩
  refine ⟨rfl, op, op.place, ns, a, v, hop, (Opcode.mem_codes_of_data hop).2, hmemory, haddress,
    hvalue, Focus.assigns_patch hmemory a v, ?_⟩
  intro o' j s' ns' a' hj hmemory' haddress' hsame
  have hvalue' : op.value j ns' = .ok v := DataOp.value_eq_of_same hsame ▸ hvalue
  have hrun : j.run o' s' = .ok (.flow .next) (s'.patch ⟨a', some v⟩) :=
    (run_data_eq_ok_iff (hj ▸ hop)).2 ⟨rfl, ns', a', v, hmemory', haddress', hvalue', rfl⟩
  exact ⟨_, hrun, Focus.assigns_patch hmemory' a' v⟩

/-- A cell that is joined to another one and holds the result itself. -/
theorem Instruction.assigns_joined :
    let i : Instruction := ⟨0, 4, [Bytes.ofWord 0, Bytes.ofWord 1, Bytes.ofWord 1]⟩
    let s : Focus := ⟨{ table := OrderedMap.empty.insert 0 ⟨.ofList [(0, [97]), (1, [98])], none⟩ },
      { program := default, active := 0 }⟩
    i.opcode.toNat ∈ Opcode.dataCodes ∧ ∃ t, i.run {} s = .ok (.flow .next) t ∧
      (∃ a v, s.Assigns t a v) ∧
      t.world.table.memory 0 = .ok (.ofList [(0, [97]), (1, [98, 97])]) := by
  intro i s
  have hi : i.opcode.toNat ∈ Opcode.dataCodes := by decide
  have hrun : i.run {} s = .ok (.flow .next) (s.patch ⟨1, some [98, 97]⟩) := rfl
  rcases Instruction.assigns hi hrun with ⟨-, -, -, -, a, v, -, -, -, -, -, hassigns, -⟩
  exact ⟨hi, _, hrun, ⟨a, v, hassigns⟩, rfl⟩

end CellMachine
