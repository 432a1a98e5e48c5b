import CellMachine.Proofs.Cell.Number
import CellMachine.Proofs.Machine.Assignment
import Mathlib.Data.List.Forall2

/-!
# Numbers in operands

This module proves that the number of a byte string is what counts where it names a cell
(`numbers_read_by_value`): an argument may be written with zero bytes in front or with the leading
zero bytes left out. Two data instructions that differ in nothing else do the same.
-/

namespace CellMachine

open Bytes Cell

variable {i j : Instruction} {ns : Namespace} {n m : Nat} {a b : Bytes}

/-- The arguments are the same, or two forms of one address. -/
def Bytes.SameAddress (a b : Bytes) : Prop := a = b ∨ toNat a = toNat b ∧ toNat a < 2 ^ 32

namespace Instruction

/-! ## Addresses -/

theorem address_of_arg (h : i.args[n]? = some a) : i.address n = typed Cell.uint a := by
  rw [address, arg, h]
  rfl

theorem address_of_toNat (h : i.args[n]? = some a) {c : UInt32} (hc : toNat a = c.toNat) :
    i.address n = .ok c := by
  rw [address_of_arg h, typed, uint_eq_ok_iff.2 hc]
  rfl

theorem address_eq_of_same (hi : i.args[n]? = some a) (hj : j.args[n]? = some b)
    (h : a.SameAddress b) : i.address n = j.address n := by
  rcases h with rfl | ⟨heq, hless⟩
  · rw [address_of_arg hi, address_of_arg hj]
  · obtain ⟨c, hc⟩ := exists_uint_iff.2 hless
    have hnumber := uint_eq_ok_iff.1 hc
    rw [address_of_toNat hi hnumber, address_of_toNat hj (heq ▸ hnumber)]

/-- The arguments are read at the same places, and there is none in the one instruction where there
is none in the other. -/
theorem address_eq_of_forall₂ (h : List.Forall₂ SameAddress i.args j.args) (n : Nat) :
    i.address n = j.address n := by
  have hlength := h.length_eq
  by_cases hn : n < i.args.length
  · have hn' : n < j.args.length := hlength ▸ hn
    exact address_eq_of_same (List.getElem?_eq_getElem hn) (List.getElem?_eq_getElem hn')
      (h.get hn hn')
  · have hi : i.args[n]? = none := List.getElem?_eq_none (Nat.le_of_not_lt hn)
    have hj : j.args[n]? = none := List.getElem?_eq_none (by omega)
    rw [address, address, arg, arg, hi, hj]

theorem value_eq_of_address (h : i.address n = j.address n) : i.value ns n = j.value ns n := by
  rw [value, value, h]

theorem uint_eq_of_address (h : i.address n = j.address n) : i.uint ns n = j.uint ns n := by
  rw [uint, uint, value_eq_of_address h]

end Instruction

/-! ## Data instructions -/

theorem Operand.same_of_address {x : Operand} (haddress : ∀ n, i.address n = j.address n)
    (hliteral : ∀ n, x = .literal n → i.arg n = j.arg n) : x.Same i j ns ns := by
  cases x with
  | literal n => exact hliteral n rfl
  | cell n => exact Instruction.value_eq_of_address (haddress n)
  | pointed n => simp only [Same, Instruction.uint_eq_of_address (haddress n)]
  | addresses => rfl
  | cells => rfl

namespace DataOp

variable {op : DataOp}

/-- The only literal among the operands is what a store stores. -/
theorem eq_store_of_literal (h : .literal n ∈ op.operands) : op = .store ∧ n = 0 := by
  cases op <;> simp_all [operands]

theorem value_eq_of_address (haddress : ∀ n, i.address n = j.address n)
    (hliteral : op = .store → i.arg 0 = j.arg 0) : op.value i ns = op.value j ns := by
  refine value_eq_of_same fun x hx => Operand.same_of_address haddress fun n hn => ?_
  obtain ⟨hstore, rfl⟩ := eq_store_of_literal (hn ▸ hx)
  exact hliteral hstore

theorem eval_eq_of_address (haddress : ∀ n, i.address n = j.address n)
    (hliteral : op = .store → i.arg 0 = j.arg 0) (memory : Except Fault Namespace) :
    op.eval i memory = op.eval j memory := by
  have hvalue (ns : Namespace) : op.value i ns = op.value j ns :=
    value_eq_of_address haddress hliteral
  have hpointer (ns : Namespace) : i.uint ns 0 = j.uint ns 0 :=
    Instruction.uint_eq_of_address (haddress 0)
  cases op with
  | store => simp only [eval, haddress, hliteral rfl]
  | _ => simp only [eval, haddress, hpointer, hvalue]

end DataOp

theorem Instruction.run_eq_of_address {op : DataOp}
    (hop : Opcode.ofCode? i.opcode = some (.data op)) (hj : j.opcode = i.opcode)
    (haddress : ∀ n, i.address n = j.address n) (hliteral : op = .store → i.arg 0 = j.arg 0)
    (o : Options) (s : Focus) : i.run o s = j.run o s := by
  have haction : (Action.data op i : Action Flow) = Action.data op j := by
    funext t
    rw [Action.data_eq, Action.data_eq, DataOp.eval_eq_of_address haddress hliteral]
  rw [run_of_data hop, run_of_data (hj ▸ hop), haction]

/-! ## Numbers -/

/-- Cells are read as numbers by value. The unsigned reading gives the number of the byte string,
whatever its length, and is refused if no word is that number; the signed reading gives the number
in two's complement at the width of the byte string, which has to be one to four bytes. Writing is
undone by reading, and undoes it on four bytes. So two arguments with the same number, which may
differ in width, name the same cell, and data instructions with such arguments do the same. -/
theorem numbers_read_by_value :
    (∀ x v, Cell.uint x = .ok v ↔ toNat x = v.toNat) ∧
    (∀ x, (∃ v, Cell.uint x = .ok v) ↔ toNat x < 2 ^ 32) ∧
    (∀ x n, Cell.sint x = .ok n ↔
      (1 ≤ x.length ∧ x.length ≤ 4) ∧ n.toInt = (toNat x : Int).bmod (256 ^ x.length)) ∧
    (∀ x, (∃ n, Cell.sint x = .ok n) ↔ 1 ≤ x.length ∧ x.length ≤ 4) ∧
    (∀ v, Cell.uint (ofUint v) = .ok v) ∧
    (∀ n, Cell.sint (ofSint n) = .ok n) ∧
    (∀ x v, Cell.uint x = .ok v → (ofUint v = x ↔ x.length = 4)) ∧
    (∀ x n, Cell.sint x = .ok n → (ofSint n = x ↔ x.length = 4)) ∧
    (∀ (i j : Instruction) (n m : Nat) (a b : Bytes), i.args[n]? = some a → j.args[m]? = some b →
      toNat a = toNat b → toNat a < 2 ^ 32 →
      ∃ c, i.address n = .ok c ∧ j.address m = .ok c ∧
        ∀ ns, i.value ns n = ns.load c ∧ j.value ns m = ns.load c) ∧
    ∀ (op : DataOp) (i j : Instruction), Opcode.ofCode? i.opcode = some (.data op) →
      j.opcode = i.opcode → List.Forall₂ SameAddress i.args j.args →
      (op = .store → i.arg 0 = j.arg 0) → ∀ o s, i.run o s = j.run o s := by
  refine ⟨fun _ _ => uint_eq_ok_iff, fun _ => exists_uint_iff, fun _ _ => sint_eq_ok_iff,
    fun _ => exists_sint_iff, uint_ofUint, sint_ofSint, fun _ _ => ofUint_eq_iff,
    fun _ _ => ofSint_eq_iff, ?_, ?_⟩
  · intro i j n m a b hi hj heq hless
    obtain ⟨c, hc⟩ := exists_uint_iff.2 hless
    have hnumber := uint_eq_ok_iff.1 hc
    have hia := Instruction.address_of_toNat hi hnumber
    have hjb := Instruction.address_of_toNat hj (heq ▸ hnumber)
    exact ⟨c, hia, hjb, fun ns =>
      ⟨Instruction.value_of_address hia, Instruction.value_of_address hjb⟩⟩
  · intro op i j hop hj hargs hliteral
    exact Instruction.run_eq_of_address hop hj (Instruction.address_eq_of_forall₂ hargs) hliteral

/-- The address 7 in one byte and in five, and a negative number that is not four bytes long. -/
theorem numbers_read_by_value_padded :
    let i : Instruction := ⟨0, 3, [[7], [0, 9]]⟩
    let j : Instruction := ⟨1, 3, [[0, 0, 0, 0, 7], [9]]⟩
    let ns : Namespace := .ofList [(7, [255, 254])]
    i.value ns 0 = .ok [255, 254] ∧ j.value ns 0 = .ok [255, 254] ∧
      (∀ s, i.run {} s = j.run {} s) ∧
      Cell.sint [255, 254] = .ok (-2) ∧ ofSint (-2) ≠ [255, 254] := by
  intro i j ns
  have hop : Opcode.ofCode? 3 = some (.data .copy) := by decide +kernel
  have hsint : Cell.sint [255, 254] = .ok (-2) :=
    (numbers_read_by_value.2.2.1 _ _).2 ⟨by decide, by decide⟩
  obtain ⟨-, -, -, -, -, -, -, hwritten, hvalue, hrun⟩ := numbers_read_by_value
  obtain ⟨c, hc, -, hload⟩ := hvalue i j 0 0 [7] [0, 0, 0, 0, 7] rfl rfl rfl (by decide)
  obtain rfl : c = 7 := (Except.ok.inj hc).symm
  have hargs : List.Forall₂ SameAddress i.args j.args :=
    .cons (.inr ⟨rfl, by decide⟩) (.cons (.inr ⟨rfl, by decide⟩) .nil)
  refine ⟨(hload ns).1, (hload ns).2, hrun .copy i j hop rfl hargs nofun {}, hsint, ?_⟩
  exact fun h => absurd ((hwritten _ _ hsint).1 h) (by decide)

end CellMachine
