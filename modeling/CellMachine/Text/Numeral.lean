/-!
# Integer numerals

Numerals in a radix: one or more digits, with an optional sign where the type has one. No
separators and no blanks are accepted, and digits are ASCII.
-/

namespace CellMachine.Text

/-- The value of the digit `c` in `radix`; letters stand for ten and more, in either case. -/
def digit? (radix : Nat) (c : Char) : Option Nat :=
  let value : Option Nat :=
    if '0' ≤ c ∧ c ≤ '9' then some (c.toNat - '0'.toNat)
    else if 'a' ≤ c ∧ c ≤ 'z' then some (c.toNat - 'a'.toNat + 10)
    else if 'A' ≤ c ∧ c ≤ 'Z' then some (c.toNat - 'A'.toNat + 10)
    else none
  value.filter (· < radix)

def digits? (radix : Nat) : (n : Nat) → (cs : List Char) → Option Nat
  | n, [] => some n
  | n, c :: rest => (digit? radix c).bind fun d => digits? radix (radix * n + d) rest

def natural? (radix : Nat) (cs : List Char) : Option Nat :=
  if cs.isEmpty then none else digits? radix 0 cs

/-- The number below `bound` written by digits after an optional `+`. -/
def unsigned? (radix bound : Nat) (cs : List Char) : Option Nat :=
  let digits := match cs with
    | '+' :: rest => rest
    | _ => cs
  (natural? radix digits).filter (· < bound)

/-- The number from `-bound` to `bound - 1` written by decimal digits after an optional sign. -/
def signed? (bound : Nat) (cs : List Char) : Option Int :=
  match cs with
  | '-' :: rest => ((natural? 10 rest).filter (· ≤ bound)).map fun n => -(n : Int)
  | '+' :: rest => ((natural? 10 rest).filter (· < bound)).map Int.ofNat
  | _ => ((natural? 10 cs).filter (· < bound)).map Int.ofNat

def word? (cs : List Char) : Option UInt32 := (unsigned? 10 UInt32.size cs).map UInt32.ofNat

def byte? (cs : List Char) : Option UInt8 := (unsigned? 10 UInt8.size cs).map UInt8.ofNat

end CellMachine.Text
