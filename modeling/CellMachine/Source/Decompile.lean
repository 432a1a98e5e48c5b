import CellMachine.Instruction
import CellMachine.Source.Argument
import CellMachine.Source.Token

/-!
# Decompilation

A binary program as source text, one line for each instruction. Arguments do not say what they are:
printable ones are shown as text where that is asked for, and the others in the way that they are
assumed to be.
-/

namespace CellMachine.Source

/-- What an argument that is not shown as text is taken for. -/
inductive AssumedType where
  | bytes | uint | float | text
  deriving DecidableEq

namespace AssumedType

instance : Inhabited AssumedType := ⟨bytes⟩

def name : AssumedType → String
  | bytes => "b"
  | uint => "i"
  | float => "f"
  | text => "s"

def ofName? : String → Option AssumedType
  | "b" => some bytes
  | "i" => some uint
  | "f" => some float
  | "s" => some text
  | _ => none

def unknownName : String := "Matching variant not found"

end AssumedType

structure Decompiler where
  assume : AssumedType := .bytes
  -- Whether printable arguments are shown as text whatever they are taken for.
  tryStrings : Bool := true

namespace Decompiler

/-- A text argument; bytes that are no text are repaired. -/
def textArgument (arg : Bytes) : List Char := 's' :: quoted (Text.lossy arg).toList

def bytesArgument (arg : Bytes) : List Char := 'b' :: (Cell.byteList arg).toList

/-- One argument. An unsigned number may have any width; a float of other than four bytes is shown
as a byte list. -/
def argument (d : Decompiler) (arg : Bytes) : List Char :=
  if d.tryStrings && Cell.isPrintable arg then textArgument arg
  else
    match d.assume with
    | .bytes => bytesArgument arg
    | .uint => 'i' :: (Nat.repr arg.toNat).toList
    | .float =>
      match Cell.float arg with
      | .ok x => 'f' :: x.toPointText.toList
      | .error _ => bytesArgument arg
    | .text => textArgument arg

def instruction (d : Decompiler) (i : Instruction) : List Char :=
  (Nat.repr i.opcode.toNat).toList ++ i.args.flatMap fun a => ' ' :: d.argument a

def text (d : Decompiler) (is : List Instruction) : String :=
  String.ofList (is.flatMap fun i => d.instruction i ++ ['\n'])

def decompile (d : Decompiler) (input : Bytes) : Except DecodeError String :=
  (Instruction.decodeAll input).map d.text

end Decompiler

end CellMachine.Source
