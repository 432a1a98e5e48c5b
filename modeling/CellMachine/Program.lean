import CellMachine.Instruction
import CellMachine.OrderedMap

/-!
# Programs

A program is a sequence of instructions with its label table. The table is derived data: every
function that makes or changes a program builds it anew from the instructions, and of two labels
with one name the later counts.
-/

namespace CellMachine

/-- The opcode of an instruction that names its own position. -/
def labelCode : UInt32 := 125

abbrev LabelTable := OrderedMap Bytes Nat

/-- The labels that a sequence of instructions defines, with the positions they name. -/
def definedLabels (is : List Instruction) : List (Bytes × Nat) :=
  is.zipIdx.filterMap fun (i, n) =>
    if i.opcode = labelCode then i.args.head?.map (·, n) else none

structure Program where
  instructions : List Instruction
  labels : LabelTable
  deriving DecidableEq

namespace Program

def ofList (is : List Instruction) : Program := ⟨is, OrderedMap.ofList (definedLabels is)⟩

instance : Inhabited Program := ⟨ofList []⟩

def encode (p : Program) : Bytes := Instruction.encodeAll p.instructions

def decode (input : Bytes) : Except DecodeError Program :=
  (Instruction.decodeAll input).map ofList

def size (p : Program) : Nat := p.instructions.length

def get? (p : Program) (n : Nat) : Option Instruction := p.instructions[n]?

def label? (p : Program) (name : Bytes) : Option Nat := p.labels.get? name

/-- Take the instructions from `first` up to `past` out of the program: what is left, and what was
taken. -/
def cut (p : Program) (first past : Nat) : Program × Program :=
  (ofList (p.instructions.take first ++ p.instructions.drop past),
    ofList ((p.instructions.take past).drop first))

end Program

end CellMachine
