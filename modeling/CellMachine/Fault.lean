import CellMachine.Cell
import CellMachine.Files.ProviderError
import CellMachine.Frame
import CellMachine.Opcode
import CellMachine.Source.Compile

/-!
# Faults

Why an instruction fails, by cause. A fault has a name for its kind, a detail and a message.
-/

namespace CellMachine

/-! ## Causes -/

/-- What is malformed or out of place in a program or in the operands of an instruction. -/
inductive Misplacement where
  | binary (e : DecodeError)
  | missingArgument (n : Nat)
  | target (position size : Nat)
  | range (first past size : Nat)  -- positions that are no part of the program
  | ownRange (first past ip : Nat)  -- positions that the present instruction is one of
  | runtimeArgument (index given : Nat)
  deriving DecidableEq

def Misplacement.message : Misplacement → String
  | .binary e => e.message
  | .missingArgument n => s!"missing argument {n}"
  | .target position size => s!"jump target {position} outside program of {size} instructions"
  | .range first past size =>
    s!"thread range {first}..{past} outside program of {size} instructions"
  | .ownRange first past ip =>
    s!"thread range {first}..{past} contains the spawning instruction {ip}"
  | .runtimeArgument index given => s!"runtime argument {index} requested, {given} given"

inductive SleepError where
  | negative
  | unrepresentable  -- beyond the longest time, or no number
  deriving DecidableEq

def SleepError.message (e : SleepError) : String :=
  "cannot convert float seconds to Duration: value is " ++
    match e with
    | .negative => "negative"
    | .unrepresentable => "either too big or NaN"

/-- Why a value is not of the type that an instruction needs. -/
inductive TypeMismatch where
  | reading (e : ReadingError)
  | sleep (seconds : Binary32) (e : SleepError)
  deriving DecidableEq

def TypeMismatch.message : TypeMismatch → String
  | .reading e => e.message
  | .sleep seconds e => s!"cannot sleep {seconds.toText} seconds: {e.message}"

def UintOp.name : UintOp → String
  | .add => "Add"
  | .sub => "Sub"
  | .mul => "Mul"
  | .div => "Div"
  | .pow => "Pow"
  | .mod => "Mod"
  | .and => "And"
  | .or => "Or"
  | .xor => "Xor"
  | .shiftLeft => "Shl"
  | .shiftRight => "Shr"

def SintOp.name : SintOp → String
  | .add => "Add"
  | .sub => "Sub"
  | .mul => "Mul"
  | .div => "Div"
  | .pow => "Pow"
  | .and => "And"
  | .or => "Or"
  | .xor => "Xor"

inductive ArithmeticError where
  | uintRange (op : UintOp)
  | sintRange (op : SintOp)
  | divisionByZero
  | negativeExponent (exponent : Int32)
  | negativeDifference
  | lengthRange (n : Nat)
  | repetition (length times : Nat)
  | floatToUint (x : Binary32)
  | floatToSint (x : Binary32)
  | sintToUint (n : Int32)
  | uintToSint (n : UInt32)
  deriving DecidableEq

def ArithmeticError.message : ArithmeticError → String
  | .uintRange op => s!"unsigned {op.name} out of 32-bit range"
  | .sintRange op => s!"signed {op.name} out of 32-bit range"
  | .divisionByZero => "division by zero"
  | .negativeExponent e => s!"negative exponent {e.toInt} for signed pow"
  | .negativeDifference => "unbounded subtraction went negative"
  | .lengthRange n => s!"length {n} does not fit in 32 bits"
  | .repetition length times =>
    s!"repeating {length} bytes {times} times exceeds {Cell.maxLength} bytes"
  | .floatToUint x => s!"{x.toText} does not fit an unsigned int"
  | .floatToSint x => s!"{x.toText} does not fit a signed int"
  | .sintToUint n => s!"{n.toInt} is negative"
  | .uintToSint n => s!"{n.toNat} exceeds the signed range"

/-- Why a program does not get what it asks the host for. -/
inductive HostError where
  | provider (e : ProviderError)
  | noBundle
  | noThread (reason : String)
  deriving DecidableEq

def HostError.message : HostError → String
  | .provider e => e.message
  | .noBundle => "no bundle files in this execution"
  | .noThread reason => s!"cannot spawn thread: {reason}"

/-- Why an extension cannot be bound, or what became of a call of it. -/
inductive ExtensionError where
  -- No extension has the name, and no plugins are looked for.
  | unknown (name : String)
  -- No extension and no plugin has the name.
  | absent (name : String)
  | load (path reason : String)
  | missingSymbol (path symbol : String)
  | abiMismatch (path : String) (found expected : UInt32)
  | refused (message : String)
  | panicked (name message : String)
  deriving DecidableEq

def ExtensionError.message : ExtensionError → String
  | .unknown name => s!"unknown extension '{name}'"
  | .absent name => s!"no extension or plugin named '{name}'"
  | .load path reason => s!"cannot load plugin {path}: {reason}"
  | .missingSymbol path symbol => s!"plugin {path} does not export {symbol}"
  | .abiMismatch path found expected =>
    s!"plugin {path} uses ABI version {found.toNat}, expected {expected.toNat}"
  | .refused message => message
  | .panicked name message => s!"{name} panicked: {message}"

/-! ## Faults -/

inductive Fault where
  | decode (cause : Misplacement)
  | undefinedAddress (address : UInt32)
  | typeDecode (cause : TypeMismatch)
  | unknownOpcode (code : UInt32)
  | cannotDeleteActiveNamespace (id : UInt32)
  | io (cause : HostError)
  | join (message : String)  -- a thread that was waited for panicked
  | undefinedNamespace (id : UInt32)
  | undefinedLabel (name : String)
  | arithmetic (cause : ArithmeticError)
  | extension (cause : ExtensionError)
  | compile (cause : Source.CompileError)
  | instructionLimitExceeded (limit : Nat)
  deriving DecidableEq

namespace Fault

inductive Kind where
  | decode | undefinedAddress | typeDecode | unknownOpcode | cannotDeleteActiveNamespace | io | join
  | undefinedNamespace | undefinedLabel | arithmetic | extension | compile
  | instructionLimitExceeded
  deriving DecidableEq

inductive Detail where
  | number (n : Nat)
  | text (s : String)

namespace Kind

def name : Kind → String
  | decode => "Decode"
  | undefinedAddress => "UndefinedAddress"
  | typeDecode => "TypeDecode"
  | unknownOpcode => "UnknownOpcode"
  | cannotDeleteActiveNamespace => "CannotDeleteActiveNamespace"
  | io => "Io"
  | join => "Join"
  | undefinedNamespace => "UndefinedNamespace"
  | undefinedLabel => "UndefinedLabel"
  | arithmetic => "Arithmetic"
  | extension => "Extension"
  | compile => "Compile"
  | instructionLimitExceeded => "InstructionLimitExceeded"

def title : Kind → String
  | decode => "decode error"
  | undefinedAddress => "undefined address"
  | typeDecode => "type decode error"
  | unknownOpcode => "unknown opcode"
  | cannotDeleteActiveNamespace => "cannot delete active namespace"
  | io => "i/o error"
  | join => "thread join failed"
  | undefinedNamespace => "undefined namespace"
  | undefinedLabel => "undefined label"
  | arithmetic => "arithmetic error"
  | extension => "extension error"
  | compile => "compile error"
  | instructionLimitExceeded => "instruction limit exceeded"

def all : List Kind :=
  [decode, undefinedAddress, typeDecode, unknownOpcode, cannotDeleteActiveNamespace, io, join,
    undefinedNamespace, undefinedLabel, arithmetic, extension, compile, instructionLimitExceeded]

def ofName? (name : String) : Option Kind := all.find? fun k => k.name = name

def message (k : Kind) (d : Detail) : String :=
  k.title ++ ": " ++
    match d with
    | .number n => toString n
    | .text s => s

end Kind

def kind : Fault → Kind
  | decode _ => .decode
  | undefinedAddress _ => .undefinedAddress
  | typeDecode _ => .typeDecode
  | unknownOpcode _ => .unknownOpcode
  | cannotDeleteActiveNamespace _ => .cannotDeleteActiveNamespace
  | io _ => .io
  | join _ => .join
  | undefinedNamespace _ => .undefinedNamespace
  | undefinedLabel _ => .undefinedLabel
  | arithmetic _ => .arithmetic
  | extension _ => .extension
  | compile _ => .compile
  | instructionLimitExceeded _ => .instructionLimitExceeded

def detail : Fault → Detail
  | decode cause => .text cause.message
  | undefinedAddress address => .number address.toNat
  | typeDecode cause => .text cause.message
  | unknownOpcode code => .number code.toNat
  | cannotDeleteActiveNamespace id => .number id.toNat
  | io cause => .text cause.message
  | join message => .text message
  | undefinedNamespace id => .number id.toNat
  | undefinedLabel name => .text name
  | arithmetic cause => .text cause.message
  | extension cause => .text cause.message
  | compile cause => .text cause.message
  | instructionLimitExceeded limit => .number limit

def message (f : Fault) : String := f.kind.message f.detail

def inspect (f : Fault) : String :=
  f.kind.name ++ "(" ++
    (match f.detail with
    | .number n => toString n
    | .text s => Text.quoted s) ++ ")"

def ofProvider (e : ProviderError) : Fault := io (.provider e)

def ofDecode (e : DecodeError) : Fault := decode (.binary e)

def ofReading (e : ReadingError) : Fault := typeDecode (.reading e)

end Fault

end CellMachine
