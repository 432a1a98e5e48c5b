import CellMachine.Arithmetic
import CellMachine.Cell.Editing
import CellMachine.Machine.Operand

/-!
# Data instructions

A data instruction computes one value and names one cell for it. Everything it needs is read before
anything is written, so the destination may be one of the sources.
-/

namespace CellMachine

def computed {α : Type} (r : Except ArithmeticError α) : Except Fault α := r.mapError .arithmetic

namespace Conversion

def value (c : Conversion) (i : Instruction) (ns : Namespace) : Except Fault Bytes := do
  match c with
  | uintToText => return Text.encode (toString (← i.uint ns 0).toNat)
  | floatToText => return Text.encode (← i.float ns 0).toPointText
  | sintToText => return Text.encode (toString (← i.sint ns 0).toInt)
  | textToUint => return Cell.ofUint (← (Cell.parseUint (← i.text ns 0)).mapError .ofReading)
  | textToFloat => return Cell.ofFloat (← (Cell.parseFloat (← i.text ns 0)).mapError .ofReading)
  | textToSint => return Cell.ofSint (← (Cell.parseSint (← i.text ns 0)).mapError .ofReading)
  | uintToFloat => return Cell.ofFloat (.ofInt (← i.uint ns 0).toNat)
  | sintToFloat => return Cell.ofFloat (.ofInt (← i.sint ns 0).toInt)
  | floatToUint => return Cell.ofUint (← computed (uintOfFloat (← i.float ns 0)))
  | floatToSint => return Cell.ofSint (← computed (sintOfFloat (← i.float ns 0)))
  | sintToUint => return Cell.ofUint (← computed (uintOfSint (← i.sint ns 0)))
  | uintToSint => return Cell.ofSint (← computed (sintOfUint (← i.uint ns 0)))

end Conversion

namespace DataOp

def destination : DataOp → Nat
  | keepFront | dropFront | removeRange | replicate | snapshot | listAddresses => 0
  | store | copy | insert | length | not | loadIndirect | storeIndirect | reverse | convert _ => 1
  | concat | compare | uint _ | sint _ | float _ | big _ => 2
  | slice => 3

def value (op : DataOp) (i : Instruction) (ns : Namespace) : Except Fault Bytes := do
  match op with
  | store => i.arg 0
  | copy => i.value ns 0
  | concat =>
    let front ← i.value ns 1
    return front ++ (← i.value ns 0)
  | insert =>
    let piece ← i.value ns 0
    let v ← i.value ns 1
    return Cell.insertAt v piece (← i.uint ns 2)
  | keepFront =>
    let v ← i.value ns 0
    return Cell.keepFront v (← i.uint ns 1)
  | dropFront =>
    let v ← i.value ns 0
    return Cell.dropFront v (← i.uint ns 1)
  | removeRange =>
    let v ← i.value ns 0
    let count ← i.uint ns 1
    return Cell.removeRange v count (← i.uint ns 2)
  | length => computed (Cell.lengthOf (← i.value ns 0))
  | not => return Cell.ofBool ((← i.uint ns 0) = 0)
  | slice =>
    let v ← i.value ns 2
    let first ← i.uint ns 0
    return Cell.slice v first (← i.uint ns 1)
  | replicate =>
    let v ← i.value ns 0
    computed (Cell.replicate v (← i.uint ns 1))
  | snapshot => return ns.snapshot
  | loadIndirect => ns.load (← i.uint ns 0)
  | storeIndirect => i.value ns 1
  | listAddresses => return Bytes.ofWords ns.keys
  | reverse => return (← i.value ns 0).reverse
  | compare =>
    let a ← i.value ns 0
    return Cell.comparison a (← i.value ns 1)
  | uint op =>
    let a ← i.uint ns 0
    return Cell.ofUint (← computed (op.apply a (← i.uint ns 1)))
  | sint op =>
    let a ← i.sint ns 0
    return Cell.ofSint (← computed (op.apply a (← i.sint ns 1)))
  | float op =>
    let a ← i.float ns 0
    return Cell.ofFloat (op.apply a (← i.float ns 1))
  | big op =>
    let a ← i.value ns 0
    computed (op.apply a (← i.value ns 1))
  | convert c => c.value i ns

/-- The cell that an operation sets, and its new value. The literal and the address of the
destination are looked at before the memory, which may not exist. -/
def eval (op : DataOp) (i : Instruction) (memory : Except Fault Namespace) :
    Except Fault (UInt32 × Bytes) := do
  match op with
  | storeIndirect =>
    let ns ← memory
    let dest ← i.uint ns 0
    return (dest, ← op.value i ns)
  | store =>
    let literal ← i.arg 0
    let dest ← i.address 1
    let _ ← memory
    return (dest, literal)
  | _ =>
    let dest ← i.address op.destination
    let ns ← memory
    return (dest, ← op.value i ns)

end DataOp

/-- Whether a condition holds of the cells that the arguments 1 and 2 name. -/
def Condition.holds (c : Condition) (i : Instruction) (ns : Namespace) : Except Fault Bool := do
  match c with
  | always => return true
  | same =>
    let a ← i.value ns 1
    return a == (← i.value ns 2)
  | differ =>
    let a ← i.value ns 1
    return a != (← i.value ns 2)
  | float c =>
    let a ← i.float ns 1
    return c.holds (a.compare? (← i.float ns 2))
  | uint c =>
    let a ← i.uint ns 1
    return c.holds (some (Ord.compare a (← i.uint ns 2)))
  | within =>
    let hay ← i.value ns 2
    return Bytes.hasInfix (← i.value ns 1) hay

end CellMachine
