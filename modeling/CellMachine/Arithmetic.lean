import CellMachine.Binary32.Arithmetic
import CellMachine.Fault

/-!
# Arithmetic

The operations on numbers in cells. Integer results are exact: one that does not fit is an error and
never wraps. Float operations round and never fail.
-/

namespace CellMachine

/-! ## Words -/

/-- A power, or `none` if it is `bound` or more in magnitude. A base of magnitude two or more
exceeds the bound `2 ^ k` at the latest with the exponent `k`, so nothing greater is computed. -/
def boundedPower (base : Int) (exponent k : Nat) : Option Int :=
  if base.natAbs ≤ 1 then some (base.pow (if exponent = 0 then 0 else 2 - exponent % 2))
  else if exponent ≤ k then some (base.pow exponent)
  else none

namespace UintOp

def word (op : UintOp) (n : Nat) : Except ArithmeticError UInt32 :=
  if n < UInt32.size then .ok (UInt32.ofNat n) else .error (.uintRange op)

def apply (op : UintOp) (a b : UInt32) : Except ArithmeticError UInt32 :=
  match op with
  | add => op.word (a.toNat + b.toNat)
  | sub => if b ≤ a then .ok (a - b) else .error (.uintRange op)
  | mul => op.word (a.toNat * b.toNat)
  | div => if b = 0 then .error .divisionByZero else .ok (a / b)
  | mod => if b = 0 then .error .divisionByZero else .ok (a % b)
  | pow =>
    match boundedPower a.toNat b.toNat 32 with
    | some n => op.word n.toNat
    | none => .error (.uintRange op)
  | and => .ok (a &&& b)
  | or => .ok (a ||| b)
  | xor => .ok (a ^^^ b)
  | shiftLeft =>
    -- Zero shifted by any number of places is zero.
    if a = 0 then .ok 0
    else if 32 ≤ b then .error (.uintRange op)
    else op.word (a.toNat * Nat.pow 2 b.toNat)
  | shiftRight => .ok (if 32 ≤ b then 0 else a >>> b)

end UintOp

namespace SintOp

def word (op : SintOp) (n : Int) : Except ArithmeticError Int32 :=
  if -0x80000000 ≤ n ∧ n < 0x80000000 then .ok (Int32.ofInt n) else .error (.sintRange op)

/-- The result of an operation on signed words. A quotient is truncated toward zero. -/
def apply (op : SintOp) (a b : Int32) : Except ArithmeticError Int32 :=
  match op with
  | add => op.word (a.toInt + b.toInt)
  | sub => op.word (a.toInt - b.toInt)
  | mul => op.word (a.toInt * b.toInt)
  | div => if b = 0 then .error .divisionByZero else op.word (a.toInt.tdiv b.toInt)
  | pow =>
    if b < 0 then .error (.negativeExponent b)
    else
      match boundedPower a.toInt b.toInt.toNat 32 with
      | some n => op.word n
      | none => .error (.sintRange op)
  | and => .ok (a &&& b)
  | or => .ok (a ||| b)
  | xor => .ok (a ^^^ b)

end SintOp

/-! ## Floats -/

def FloatOp.apply (op : FloatOp) (a b : Binary32) : Binary32 :=
  match op with
  | add => a.add b
  | sub => a.sub b
  | mul => a.mul b
  | div => a.div b
  | pow => a.pow b
  | mod => a.floorMod b
  | and => ⟨a.bits &&& b.bits⟩
  | or => ⟨a.bits ||| b.bits⟩
  | xor => ⟨a.bits ^^^ b.bits⟩

/-! ## Numbers of any size -/

/-- The result of an operation on byte strings as numbers, in the fewest bytes. -/
def BigOp.apply (op : BigOp) (a b : Bytes) : Except ArithmeticError Bytes :=
  match op with
  | add => .ok (Bytes.ofNat (a.toNat + b.toNat))
  | sub =>
    if b.toNat ≤ a.toNat then .ok (Bytes.ofNat (a.toNat - b.toNat)) else .error .negativeDifference

/-! ## From one type to another -/

def uintOfFloat (x : Binary32) : Except ArithmeticError UInt32 :=
  match x.truncate? with
  | some n =>
    if 0 ≤ n ∧ n < UInt32.size then .ok (UInt32.ofNat n.toNat) else .error (.floatToUint x)
  | none => .error (.floatToUint x)

def sintOfFloat (x : Binary32) : Except ArithmeticError Int32 :=
  match x.truncate? with
  | some n =>
    if -0x80000000 ≤ n ∧ n < 0x80000000 then .ok (Int32.ofInt n) else .error (.floatToSint x)
  | none => .error (.floatToSint x)

def uintOfSint (n : Int32) : Except ArithmeticError UInt32 :=
  if 0 ≤ n then .ok n.toUInt32 else .error (.sintToUint n)

def sintOfUint (n : UInt32) : Except ArithmeticError Int32 :=
  if n < 0x80000000 then .ok n.toInt32 else .error (.uintToSint n)

/-! ## Comparisons -/

/-- Whether two things that compare as given are in a relation; those that do not compare are in
none. -/
def Comparison.holds (c : Comparison) (o : Option Ordering) : Bool :=
  match c, o with
  | _, none => false
  | gt, some o => o = .gt
  | lt, some o => o = .lt
  | ge, some o => o ≠ .lt
  | le, some o => o ≠ .gt
  | eq, some o => o = .eq

end CellMachine
