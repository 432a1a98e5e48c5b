import CellMachine.Instruction
import CellMachine.Source.Argument
import CellMachine.Source.Token

/-!
# Compilation

A line with a token other than a comment in front is one instruction: an opcode number and its
arguments. Empty tokens count for nothing. Compilation stops at the first line that is no
instruction, and keeps the instructions of the lines before it.
-/

namespace CellMachine.Source

structure CompileError where
  -- How many instructions stand before it.
  line : UInt32
  -- The number of the line in the source text, from one.
  sourceLine : Nat
  tokens : List String
  cause : TokenError
  deriving DecidableEq

def CompileError.message (e : CompileError) : String :=
  s!"{e.cause.message} LINE: {e.line.toNat} (source line {e.sourceLine}) CODE: " ++
    Text.bracketed (e.tokens.map Text.quoted)

structure Compilation where
  instructions : List Instruction
  -- The fault that ended the compilation, if any.
  error : Option CompileError
  deriving DecidableEq

namespace Compilation

def bytes (c : Compilation) : Bytes := Instruction.encodeAll c.instructions

/-- How many lines compiled. -/
def size (c : Compilation) : Nat := c.instructions.length

/-- The binary program of a compilation without fault. -/
def result (c : Compilation) : Except CompileError Bytes :=
  match c.error with
  | some e => .error e
  | none => .ok c.bytes

end Compilation

/-- Whether the tokens of a line, without the empty ones, are an instruction rather than a blank or
a comment. -/
def holdsInstruction : List String → Bool
  | [] => false
  | first :: _ => !"//".toList.isPrefixOf first.toList

/-- The lines that are to hold instructions, as their tokens without the empty ones, each with its
number in the source text. -/
def instructionLines (text : String) : List (Nat × List String) :=
  (lines text).zipIdx.filterMap fun (line, n) =>
    let tokens := line.filter (· != "")
    if holdsInstruction tokens then some (n + 1, tokens) else none

def instruction (line : UInt32) : List String → Except TokenError Instruction
  | [] => .error (.invalidOpcode "")
  | first :: rest => do
    let code ← opcode first.toList
    let args ← rest.mapM fun token => argument token.toList
    return { line, opcode := code, args }

def compileFrom (line : UInt32) : List (Nat × List String) → Compilation
  | [] => { instructions := [], error := none }
  | (sourceLine, tokens) :: rest =>
    match instruction line tokens with
    | .ok i =>
      let c := compileFrom (line + 1) rest
      { c with instructions := i :: c.instructions }
    | .error cause =>
      { instructions := [], error := some { line, sourceLine, tokens, cause } }

def compile (text : String) : Compilation := compileFrom 0 (instructionLines text)

end CellMachine.Source
