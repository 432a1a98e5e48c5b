/-!
# Byte strings

Cells, arguments, files and the output buffer are all byte strings, and all numbers in them are
written most significant byte first. This module gives the natural number and the integer that a
byte string of any width denotes, the four-byte word, and the shortest byte string of a number.
-/

namespace CellMachine

abbrev Bytes := List UInt8

namespace Bytes

/-- The natural number written by `bytes`, most significant byte first; the empty string is 0. -/
def toNat (bytes : Bytes) : Nat := bytes.foldl (fun n b => 256 * n + b.toNat) 0

/-- The bytes of `n` in front of `tail`, without leading zero bytes. -/
def digits (n : Nat) (tail : Bytes) : Bytes :=
  if h : n = 0 then tail else digits (n / 256) (UInt8.ofNat n :: tail)
termination_by n
decreasing_by omega

/-- The shortest non-empty byte string of `n`. -/
def ofNat (n : Nat) : Bytes := if n = 0 then [0] else digits n []

/-- The integer written by `bytes` in two's complement at their own width. -/
def toInt (bytes : Bytes) : Int :=
  match bytes with
  | [] => 0
  | b :: _ =>
    if b < 128 then bytes.toNat else (bytes.toNat : Int) - Nat.pow 256 bytes.length

def ofWord (w : UInt32) : Bytes :=
  [(w >>> 24).toUInt8, (w >>> 16).toUInt8, (w >>> 8).toUInt8, w.toUInt8]

/-- The word written by `bytes`; of more than four bytes the last four count. -/
def toWord (bytes : Bytes) : UInt32 :=
  bytes.foldl (fun w b => (w <<< 8) ||| b.toUInt32) 0

def ofWords (ws : List UInt32) : Bytes := ws.flatMap ofWord

/-- Whether `needle` is a contiguous part of `hay`; the empty string is part of every one. -/
def hasInfix (needle : Bytes) : (hay : Bytes) → Bool
  | [] => needle.isEmpty
  | b :: rest => needle.isPrefixOf (b :: rest) || hasInfix needle rest

@[simp] theorem length_ofWord (w : UInt32) : (ofWord w).length = 4 := rfl

end Bytes

end CellMachine
