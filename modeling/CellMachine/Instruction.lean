import CellMachine.Frame
import CellMachine.Text.Quoted

/-!
# Instructions

An instruction is an opcode number with byte-string arguments, each of which its opcode reads in its
own way, and the number of the source line it came from. The binary form of a program is the
sequence of its instructions: line number, opcode and argument count as words, then each argument
as a frame.
-/

namespace CellMachine

structure Instruction where
  -- The number of the source line, among the lines that hold instructions.
  line : UInt32
  opcode : UInt32
  args : List Bytes
  deriving DecidableEq, Inhabited

namespace Instruction

def encodedLength (i : Instruction) : Nat :=
  12 + (i.args.map fun a => 4 + a.length).foldr (· + ·) 0

def encode (i : Instruction) : Bytes :=
  Bytes.ofWord i.line ++ Bytes.ofWord i.opcode ++ Bytes.ofWord (UInt32.ofNat i.args.length) ++
    i.args.flatMap Bytes.framed

def encodeAll (is : List Instruction) : Bytes := is.flatMap encode

def read : Reading Instruction := do
  let line ← Reading.word "line index"
  let opcode ← Reading.word "opcode"
  let count ← Reading.word "argument count"
  let args ← Reading.frames "argument" count.toNat
  return { line, opcode, args }

/-- The instructions of a binary program; one that breaks off is an error. -/
def decodeAll (input : Bytes) : Except DecodeError (List Instruction) :=
  (Reading.toEnd read).runOn input

def describe (i : Instruction) : String :=
  toString i.opcode.toNat ++ String.join (i.args.map fun a => " " ++ Text.listed a)

end Instruction

end CellMachine
