import CellMachine.Binary32.Decimal
import CellMachine.Bytes
import CellMachine.Text.Blank
import CellMachine.Text.Fields
import CellMachine.Text.Numeral
import CellMachine.Text.Quoted
import CellMachine.Text.Utf8

/-!
# Readings of a cell

A cell holds bytes and no type. Each instruction decides how it reads one: as an unsigned or a
signed number, as a float, or as text. Only reads can fail; any bytes can be stored.
-/

namespace CellMachine

inductive NumeralKind where
  | uint | sint | float | byteList
  deriving DecidableEq

def NumeralKind.name : NumeralKind → String
  | .uint => "unsigned int"
  | .sint => "signed int"
  | .float => "float"
  | .byteList => "byte list"

/-- Why a cell or a text cannot be read in the way asked for. -/
inductive ReadingError where
  | uint (length : Nat)  -- more than four significant bytes
  | sint (length : Nat)  -- no bytes, or more than four
  | float (length : Nat)  -- other than four bytes
  | notText
  | unparsable (text : String) (kind : NumeralKind)
  deriving DecidableEq

def ReadingError.message : ReadingError → String
  | .uint n => s!"cannot read {n} bytes as an unsigned int (at most 4 significant bytes)"
  | .sint n => s!"cannot read {n} bytes as a signed int (expected 1 to 4)"
  | .float n => s!"cannot read {n} bytes as a float (expected 4)"
  | .notText => "value is not valid utf-8"
  | .unparsable text kind => "cannot parse " ++ Text.quoted text ++ " as " ++ kind.name

namespace Cell

/-- The greatest length that an instruction may reach by multiplying a length. -/
def maxLength : Nat := 0x10000000

/-! ## Reading -/

/-- The unsigned number in `bytes`. Fewer than four bytes are extended by zeros, and of more than
four the ones before the last four have to be zeros. -/
def uint (bytes : Bytes) : Except ReadingError UInt32 :=
  let excess := bytes.take (bytes.length - 4)
  if excess.any (· != 0) then .error (.uint bytes.length)
  else .ok (Bytes.toWord (bytes.drop (bytes.length - 4)))

/-- The signed number in one to four bytes, extended by its own sign. -/
def sint (bytes : Bytes) : Except ReadingError Int32 :=
  if bytes.isEmpty || 4 < bytes.length then .error (.sint bytes.length)
  else .ok (Int32.ofInt bytes.toInt)

def float (bytes : Bytes) : Except ReadingError Binary32 :=
  if bytes.length = 4 then .ok ⟨bytes.toWord⟩ else .error (.float bytes.length)

def text (bytes : Bytes) : Except ReadingError String :=
  match Text.decode? bytes with
  | some s => .ok s
  | none => .error .notText

/-! ## Writing -/

def ofUint (n : UInt32) : Bytes := Bytes.ofWord n

def ofSint (n : Int32) : Bytes := Bytes.ofWord n.toUInt32

def ofFloat (x : Binary32) : Bytes := Bytes.ofWord x.bits

def ofBool (b : Bool) : Bytes := ofUint (if b then 1 else 0)

/-! ## Numerals -/

/-- The value that `read` finds in a text without the white space around it. -/
def parse {α : Type} (kind : NumeralKind) (read : List Char → Option α) (s : String) :
    Except ReadingError α :=
  match read (Text.trim s.toList) with
  | some a => .ok a
  | none => .error (.unparsable s kind)

def parseUint : String → Except ReadingError UInt32 := parse .uint Text.word?

def parseSint : String → Except ReadingError Int32 :=
  parse .sint fun cs => (Text.signed? 0x80000000 cs).map Int32.ofInt

def parseFloat : String → Except ReadingError Binary32 := parse .float Binary32.parse?

def byteList (bytes : Bytes) : String :=
  String.ofList (Text.joined ',' (bytes.map fun b => (Nat.repr b.toNat).toList))

/-- The bytes of a comma-separated list. The empty text is the empty list, and white space around a
number is ignored. -/
def byteList? (cs : List Char) : Option Bytes :=
  if cs.isEmpty then some []
  else (Text.fields ',' cs).mapM fun part => Text.byte? (Text.trim part)

def parseByteList (s : String) : Except ReadingError Bytes :=
  match byteList? s.toList with
  | some bytes => .ok bytes
  | none => .error (.unparsable s .byteList)

/-! ## Parts -/

/-- Whether `b` is an ASCII character with a glyph, a space or a control that moves the print
position: tab, line feed, vertical tab, form feed or carriage return. -/
def isPrintableByte (b : UInt8) : Bool := (0x20 ≤ b && b ≤ 0x7E) || (0x09 ≤ b && b ≤ 0x0D)

def isPrintable (bytes : Bytes) : Bool := bytes.all isPrintableByte

/-- A position in a value of the given length: one beyond the end stands for the end. -/
def clamp (index : UInt32) (length : Nat) : Nat := min index.toNat length

end Cell

end CellMachine
