import CellMachine.Fault

/-!
# Editing byte strings

Cutting and joining values. Positions and counts beyond the end stand for the end.
-/

namespace CellMachine.Cell

def keepFront (v : Bytes) (n : UInt32) : Bytes := v.take (clamp n v.length)

def dropFront (v : Bytes) (n : UInt32) : Bytes := v.drop (clamp n v.length)

def insertAt (v piece : Bytes) (position : UInt32) : Bytes :=
  let k := clamp position v.length
  v.take k ++ piece ++ v.drop k

def saturatingAdd (a b : UInt32) : UInt32 :=
  UInt32.ofNat (min (a.toNat + b.toNat) (UInt32.size - 1))

def removeRange (v : Bytes) (count position : UInt32) : Bytes :=
  v.take (clamp position v.length) ++ v.drop (clamp (saturatingAdd position count) v.length)

/-- The bytes from one position up to another; none if the second is not beyond the first. -/
def slice (v : Bytes) (first past : UInt32) : Bytes :=
  let s := clamp first v.length
  let e := clamp past v.length
  if s < e then (v.take e).drop s else []

def lengthOf (v : Bytes) : Except ArithmeticError Bytes :=
  if v.length < UInt32.size then .ok (ofUint (UInt32.ofNat v.length))
  else .error (.lengthRange v.length)

def replicate (v : Bytes) (times : UInt32) : Except ArithmeticError Bytes :=
  if maxLength < v.length * times.toNat then .error (.repetition v.length times.toNat)
  else if v.isEmpty then .ok []
  else .ok (List.replicate times.toNat v).flatten

/-- How two values compare as byte strings: 0 for equal, 1 for less, 2 for greater. -/
def comparison (a b : Bytes) : Bytes :=
  match compare a b with
  | .eq => [0]
  | .lt => [1]
  | .gt => [2]

/-- A count as one byte; from 255 on it is 255. -/
def countByte (n : Nat) : Bytes := [UInt8.ofNat (min n 255)]

end CellMachine.Cell
