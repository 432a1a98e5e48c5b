import CellMachine.Text.Unprintable

/-!
# Quoted renderings

How messages show a text, a character, a byte string or a list: between quotes or brackets, with
the enclosing quote, the backslash and the characters without a glyph escaped.
-/

namespace CellMachine.Text

def hexNumber (n : Nat) : String := String.ofList (Nat.toDigits 16 n)

def escapeChar (mark c : Char) : String :=
  if c = '\x00' then "\\0"
  else if c = '\t' then "\\t"
  else if c = '\r' then "\\r"
  else if c = '\n' then "\\n"
  else if c = mark || c = '\\' then String.ofList ['\\', c]
  else if isUnprintable c then "\\u\x7b" ++ hexNumber c.toNat ++ "\x7d"
  else String.singleton c

def quoted (s : String) : String :=
  "\"" ++ String.join (s.toList.map (escapeChar '"')) ++ "\""

def quotedChar (c : Char) : String := "'" ++ escapeChar '\'' c ++ "'"

def bracketed (items : List String) : String := "[" ++ ", ".intercalate items ++ "]"

def listed (bytes : List UInt8) : String := bracketed (bytes.map fun b => toString b.toNat)

end CellMachine.Text
