import CellMachine.Instruction
import CellMachine.Json
import CellMachine.Program

/-!
# Instructions as JSON

An instruction is an object with the members `line_index`, `opcode` and `args`, the arguments being
arrays of bytes. The reader also takes an array of the three values, ignores members with other
names, and refuses a member that is given twice.
-/

namespace CellMachine

namespace Instruction

def bytesToJson (bytes : Bytes) : Json := .array (bytes.map fun b => .integer b.toNat)

def toJson (i : Instruction) : Json :=
  .object [
    ("line_index".toList, .integer i.line.toNat),
    ("opcode".toList, .integer i.opcode.toNat),
    ("args".toList, .array (i.args.map bytesToJson))]

def natBelow? (bound : Nat) : Json → Option Nat
  | .integer n => if 0 ≤ n ∧ n.toNat < bound then some n.toNat else none
  | _ => none

def wordOfJson? (j : Json) : Option UInt32 := (natBelow? UInt32.size j).map UInt32.ofNat

def bytesOfJson? : Json → Option Bytes
  | .array items => items.mapM fun j => (natBelow? UInt8.size j).map UInt8.ofNat
  | _ => none

def argsOfJson? : Json → Option (List Bytes)
  | .array items => items.mapM bytesOfJson?
  | _ => none

/-- The value of a member that is given once. -/
def member? (name : String) (members : List (List Char × Json)) : Option Json :=
  match members.filter (·.1 = name.toList) with
  | [(_, value)] => some value
  | _ => none

def ofValues? (line opcode args : Json) : Option Instruction := do
  return ⟨← wordOfJson? line, ← wordOfJson? opcode, ← argsOfJson? args⟩

def ofJson? : Json → Option Instruction
  | .array [line, opcode, args] => ofValues? line opcode args
  | .object members => do
    ofValues? (← member? "line_index" members) (← member? "opcode" members)
      (← member? "args" members)
  | _ => none

end Instruction

namespace Program

/-- The JSON text of a program; the label table is left out. -/
def toJsonText (p : Program) : String :=
  Json.pretty 0
    (.object [("instructions".toList, .array (p.instructions.map Instruction.toJson))])

end Program

end CellMachine
