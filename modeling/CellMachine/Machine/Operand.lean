import CellMachine.Instruction
import CellMachine.Namespace

/-!
# Operands

The arguments of an instruction, as literals and as addresses of cells.
-/

namespace CellMachine.Instruction

def arg (i : Instruction) (n : Nat) : Except Fault Bytes :=
  match i.args[n]? with
  | some a => .ok a
  | none => .error (.decode (.missingArgument n))

def typed {α : Type} (reading : Bytes → Except ReadingError α) (bytes : Bytes) : Except Fault α :=
  (reading bytes).mapError .ofReading

def address (i : Instruction) (n : Nat) : Except Fault UInt32 := do
  typed Cell.uint (← i.arg n)

def value (i : Instruction) (ns : Namespace) (n : Nat) : Except Fault Bytes := do
  ns.load (← i.address n)

def uint (i : Instruction) (ns : Namespace) (n : Nat) : Except Fault UInt32 := do
  typed Cell.uint (← i.value ns n)

def sint (i : Instruction) (ns : Namespace) (n : Nat) : Except Fault Int32 := do
  typed Cell.sint (← i.value ns n)

def float (i : Instruction) (ns : Namespace) (n : Nat) : Except Fault Binary32 := do
  typed Cell.float (← i.value ns n)

def text (i : Instruction) (ns : Namespace) (n : Nat) : Except Fault String := do
  typed Cell.text (← i.value ns n)

end CellMachine.Instruction
