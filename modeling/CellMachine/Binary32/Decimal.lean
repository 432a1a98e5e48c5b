import CellMachine.Binary32
import CellMachine.Text.Numeral

/-!
# Binary32 numbers in decimal

Reading rounds a decimal to the nearest number; writing picks the fewest digits that read back to
the number, of two such decimals the nearer, and of two equally near ones the greater. Positional
notation is used throughout, however long the text becomes.
-/

namespace CellMachine

structure Decimal where
  digits : Nat
  power : Int
  deriving DecidableEq

namespace Decimal

def reduced (d : Decimal) : Decimal :=
  if h : d.digits ≠ 0 ∧ d.digits % 10 = 0 then reduced ⟨d.digits / 10, d.power + 1⟩ else d
termination_by d.digits
decreasing_by omega

/-- The magnitude in positional notation, without a point if the decimal is a whole number. -/
def positional (d : Decimal) : String :=
  let text := (Nat.repr d.digits).toList
  if 0 ≤ d.power then String.ofList (text ++ List.replicate d.power.toNat '0')
  else
    let places := (-d.power).toNat
    let padded := List.replicate (places + 1 - text.length) '0' ++ text
    let whole := padded.length - places
    String.ofList (padded.take whole ++ '.' :: padded.drop whole)

end Decimal

namespace Binary32

/-! ## Reading -/

/-- How many decimal digits `n` has; zero has none. -/
def digitCount (n : Nat) : Nat := if n = 0 then 0 else (Nat.repr n).length

/-- The number nearest to a decimal. A decimal far outside the range is not computed: it is beyond
the largest number or below half of the least. -/
def ofDecimal (negative : Bool) (d : Decimal) : Binary32 :=
  let top : Int := d.power + digitCount d.digits
  if d.digits = 0 || top < -60 then zero negative
  else if 60 < top then infinity negative
  else if 0 ≤ d.power then ofRatio negative (d.digits * Nat.pow 10 d.power.toNat) 1
  else ofRatio negative d.digits (Nat.pow 10 (-d.power).toNat)

def takeDigits (cs : List Char) : List Char × List Char :=
  (cs.takeWhile Char.isDigit, cs.dropWhile Char.isDigit)

def exponentPart? : List Char → Option Int
  | [] => some 0
  | c :: rest =>
    if c = 'e' ∨ c = 'E' then
      match rest with
      | '-' :: ds => (Text.natural? 10 ds).map fun n => -(n : Int)
      | '+' :: ds => (Text.natural? 10 ds).map Int.ofNat
      | ds => (Text.natural? 10 ds).map Int.ofNat
    else none

/-- The decimal written by digits, an optional point with digits and an optional exponent. One digit
at least stands before or after the point. -/
def decimal? (cs : List Char) : Option Decimal :=
  let (whole, rest) := takeDigits cs
  let (places, rest) := match rest with
    | '.' :: rest => takeDigits rest
    | _ => ([], rest)
  (Text.natural? 10 (whole ++ places)).bind fun digits =>
    (exponentPart? rest).map fun e => ⟨digits, e - places.length⟩

/-- The number written by an optional sign and a decimal, `inf`, `infinity` or `nan`; letters count
in either case. -/
def parse? (cs : List Char) : Option Binary32 :=
  let (negative, body) := match cs with
    | '-' :: rest => (true, rest)
    | '+' :: rest => (false, rest)
    | _ => (false, cs)
  let word := String.ofList (body.map Char.toLower)
  if word = "inf" ∨ word = "infinity" then some (infinity negative)
  else if word = "nan" then some (withSign negative nan.bits)
  else (decimal? body).map (ofDecimal negative)

/-! ## Writing -/

def exactDecimal (x : Binary32) : Decimal :=
  if 0 ≤ x.scale then ⟨x.mantissa * Nat.pow 2 x.scale.toNat, 0⟩
  else ⟨x.mantissa * Nat.pow 5 (-x.scale).toNat, x.scale⟩

/-- The two neighbours of an exact decimal among the multiples of `10 ^ power`, the nearer first; of
two equally near ones the greater comes first. -/
def neighbours (exact : Decimal) (power : Int) : List Decimal :=
  let step := Nat.pow 10 (power - exact.power).toNat
  let low : Decimal := ⟨exact.digits / step, power⟩
  let high : Decimal := ⟨exact.digits / step + 1, power⟩
  if 2 * (exact.digits % step) < step then [low, high] else [high, low]

/-- The first decimal that reads back to `x` on grids of one digit, two digits and so on up to
nine, or else the exact one. A neighbour on a grid may carry into one digit more, so zeros at the
end are taken off. -/
def shortest (x : Binary32) : Decimal :=
  let exact := x.exactDecimal
  let top : Int := exact.power + digitCount exact.digits
  let grids := (List.range 9).map fun (n : Nat) => max exact.power (top - (n + 1))
  let candidates := grids.flatMap (neighbours exact)
  ((candidates.find? fun d => ofDecimal x.negative d = x).getD exact).reduced

/-- The text of a number; a whole number has no point. -/
def toText (x : Binary32) : String :=
  let sign := if x.negative then "-" else ""
  if x.isNaN then "NaN"
  else if x.isInfinite then sign ++ "inf"
  else if x.isZero then sign ++ "0"
  else sign ++ x.shortest.positional

/-- The text of a number in which every finite number has a point: `3.0`, `0.5`, `inf`, `NaN`. -/
def toPointText (x : Binary32) : String :=
  let text := x.toText
  if x.isFinite && !text.toList.contains '.' then text ++ ".0" else text

end Binary32

end CellMachine
