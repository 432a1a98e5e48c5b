import CellMachine.Cell

/-!
# Argument tokens

An argument token is a letter for its type and then its text: `i` and `g` for unsigned and signed
numbers, `h` for hexadecimal ones, `f` for floats, `s` for text and `b` for byte lists. The letter
decides how the bytes are made and is not kept.
-/

namespace CellMachine.Source

/-- Why a token does not stand for an opcode or an argument. -/
inductive TokenError where
  | invalidOpcode (token : String)
  | unknownTag (tag : Char)
  | invalidUint (body : String)
  | invalidSint (body : String)
  | invalidHex (body : String)
  | invalidFloat (body : String)
  | invalidByteList (body : String)
  deriving DecidableEq

def TokenError.message : TokenError → String
  | .invalidOpcode token => "invalid opcode number " ++ Text.quoted token
  | .unknownTag tag => "unknown type tag " ++ Text.quotedChar tag
  | .invalidUint body => "invalid unsigned int " ++ Text.quoted body
  | .invalidSint body => "invalid signed int " ++ Text.quoted body
  | .invalidHex body => "invalid hex int " ++ Text.quoted body
  | .invalidFloat body => "invalid float " ++ Text.quoted body
  | .invalidByteList body => "invalid byte list " ++ Text.quoted body

def opcode (token : List Char) : Except TokenError UInt32 :=
  match Text.word? token with
  | some code => .ok code
  | none => .error (.invalidOpcode (String.ofList token))

def hexDigits : List Char → List Char
  | '0' :: 'x' :: digits => digits
  | '0' :: 'X' :: digits => digits
  | digits => digits

def argument (token : List Char) : Except TokenError Bytes :=
  let orElse (value : Option Bytes) (e : String → TokenError) (body : List Char) :
      Except TokenError Bytes :=
    match value with
    | some bytes => .ok bytes
    | none => .error (e (String.ofList body))
  match token with
  | [] => .error (.unknownTag ' ')
  | 'i' :: body => orElse ((Text.word? body).map Cell.ofUint) .invalidUint body
  | 'g' :: body =>
    orElse ((Text.signed? 0x80000000 body).map fun n => Cell.ofSint (Int32.ofInt n))
      .invalidSint body
  | 'h' :: body =>
    orElse
      ((Text.unsigned? 16 UInt32.size (hexDigits body)).map fun n => Cell.ofUint (UInt32.ofNat n))
      .invalidHex body
  | 'f' :: body => orElse ((Binary32.parse? body).map Cell.ofFloat) .invalidFloat body
  | 's' :: body => .ok (Text.encode (String.ofList body))
  | 'b' :: body => orElse (Cell.byteList? body) .invalidByteList body
  | tag :: _ => .error (.unknownTag tag)

end CellMachine.Source
