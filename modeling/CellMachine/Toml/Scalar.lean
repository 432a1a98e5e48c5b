import CellMachine.Text.Numeral
import CellMachine.Toml

/-!
# Keys, strings, numbers and dates

The parts of the TOML format that have no parts of their own. A `Reader` takes some of the text and
leaves the rest, or fails without having taken anything.
-/

namespace CellMachine.Toml

abbrev Reader := StateT (List Char) Option

namespace Reader

/-! ## Characters -/

def charIf (p : Char → Bool) : Reader Char
  | [] => none
  | c :: rest => if p c then some (c, rest) else none

def char (c : Char) : Reader Unit := do let _ ← charIf (· = c)

def word (text : String) : Reader Unit := text.toList.forM char

def takeWhile (p : Char → Bool) : Reader (List Char) := fun cs =>
  some (cs.takeWhile p, cs.dropWhile p)

def atEnd : Reader Unit
  | [] => some ((), [])
  | _ :: _ => none

def taken (r : Reader Unit) : Reader (List Char) := fun cs =>
  (r cs).map fun ((), rest) => (cs.take (cs.length - rest.length), rest)

def maybe {α : Type} (r : Reader α) : Reader (Option α) := fun cs =>
  match r cs with
  | some (a, rest) => some (some a, rest)
  | none => some (none, cs)

/-! ## Blanks, comments and line ends -/

def isBlank (c : Char) : Bool := c = ' ' || c = '\t'

/-- Whether a character is text: no control character but the tabulator. -/
def isText (c : Char) : Bool := c = '\t' || (32 ≤ c.toNat && c.toNat ≠ 127)

def blanks : Reader Unit := do let _ ← takeWhile isBlank

def newline : Reader Unit := do
  let _ ← maybe (char '\r')
  char '\n'

def comment : Reader Unit := do
  char '#'
  let _ ← takeWhile isText

/-- Skip blanks, line ends, and, where they are allowed, comments, each of which ends with its
line. -/
def gap (comments : Bool) : (fuel : Nat) → Reader Unit
  | 0 => pure ()
  | fuel + 1 => do
    blanks
    match ← maybe (do
      if comments then let _ ← maybe comment
      newline) with
    | some () => gap comments fuel
    | none => pure ()

def blankLines : Reader Unit := do gap false (← get).length

def commentLines : Reader Unit := do gap true (← get).length

def lineEnd : Reader Unit := do
  blanks
  let _ ← maybe comment
  newline <|> atEnd

/-! ## Strings -/

def charNumber (digits : Nat) : Reader Char := fun cs => do
  if cs.length < digits then none
  else
    let n ← Text.digits? 16 0 (cs.take digits)
    if n.isValidChar then return (Char.ofNat n, cs.drop digits) else none

def escape : Reader Char := do
  char '\\'
  match ← charIf fun _ => true with
  | 'b' => return '\x08'
  | 't' => return '\t'
  | 'n' => return '\n'
  | 'f' => return '\x0c'
  | 'r' => return '\r'
  | '"' => return '"'
  | '\\' => return '\\'
  | 'u' => charNumber 4
  | 'U' => charNumber 8
  | _ => failure

/-- A character between the given quotes; double quotes allow escape sequences. -/
def quotedChar (mark : Char) : Reader Char := do
  if mark = '"' then escape <|> charIf (fun c => isText c && c ≠ '"' && c ≠ '\\')
  else charIf fun c => isText c && c ≠ mark

def lineBody (mark : Char) : (fuel : Nat) → Reader (List Char)
  | 0 => failure
  | fuel + 1 => do
    match ← maybe (char mark) with
    | some () => return []
    | none => return (← quotedChar mark) :: (← lineBody mark fuel)

def lineString (mark : Char) : Reader String := do
  char mark
  return String.ofList (← lineBody mark ((← get).length + 1))

/-- A part of a block of lines that is no quote: a character, or a line end, or nothing for line
ends that are escaped. -/
def blockPart (mark : Char) : Reader (List Char) :=
  (do newline; return ['\n'])
  <|> (do
    if mark = '"' then
      char '\\'
      blanks
      newline
      blankLines
      return []
    else failure)
  <|> (do return [← quotedChar mark])

/-- The rest of a block of lines after its opening quotes. Up to two quotes belong to the text, also
in front of the three that close the block. -/
def blockBody (mark : Char) : (fuel : Nat) → Reader (List Char)
  | 0 => failure
  | fuel + 1 => do
    let quotes ← takeWhile (· = mark)
    match quotes.length with
    | 0 => return (← blockPart mark) ++ (← blockBody mark fuel)
    | 1 | 2 => return quotes ++ (← blockPart mark) ++ (← blockBody mark fuel)
    | 3 | 4 | 5 => return quotes.drop 3
    | _ => failure

/-- A string of several lines between three quotes each. A line end right behind the opening ones
does not count. -/
def blockString (mark : Char) : Reader String := do
  char mark
  char mark
  char mark
  let _ ← maybe newline
  return String.ofList (← blockBody mark ((← get).length + 1))

def string : Reader String :=
  blockString '"' <|> lineString '"' <|> blockString '\'' <|> lineString '\''

/-! ## Keys -/

/-- The greatest depth of tables in one another is one less. -/
def depthLimit : Nat := 80

def keyPart : Reader String :=
  lineString '"' <|> lineString '\'' <|> do
    let cs ← takeWhile fun c => c.isAlphanum || c = '_' || c = '-'
    if cs.isEmpty then failure else return String.ofList cs

def keyParts : (fuel : Nat) → Reader (List String)
  | 0 => failure
  | fuel + 1 => do
    blanks
    let part ← keyPart
    blanks
    match ← maybe (char '.') with
    | some () => return part :: (← keyParts fuel)
    | none => return [part]

def key : Reader (List String) := keyParts (depthLimit - 1)

/-! ## Numbers -/

/-- Digits with single underscores between them, which do not count. -/
def digitRun (isDigit : Char → Bool) : List Char → List Char × List Char
  | [] => ([], [])
  | c :: rest =>
    if isDigit c then
      match rest with
      | '_' :: d :: more =>
        if isDigit d then
          let (digits, rest) := digitRun isDigit (d :: more)
          (c :: digits, rest)
        else ([c], rest)
      | rest =>
        let (digits, rest) := digitRun isDigit rest
        (c :: digits, rest)
    else ([], c :: rest)

def digits (isDigit : Char → Bool) : Reader (List Char) := fun cs =>
  match digitRun isDigit cs with
  | ([], _) => none
  | result => some result

def sign : Reader Bool := do
  match ← maybe (charIf fun c => c = '+' || c = '-') with
  | some c => return c = '-'
  | none => return false

/-- A whole number without leading zeros: whether it has a minus, and its digits. -/
def whole : Reader (Bool × List Char) := do
  let minus ← sign
  match ← maybe (char '0') with
  | some () => return (minus, ['0'])
  | none => return (minus, ← digits Char.isDigit)

/-- An integer of 64 bits; hexadecimal, octal and binary ones have no sign. -/
def integer : Reader Int := do
  let bound := UInt64.size / 2
  let inRadix (mark : String) (radix : Nat) : Reader Int := do
    word mark
    let ds ← digits fun c => (Text.digit? radix c).isSome
    let n ← Text.natural? radix ds
    if n < bound then return n else failure
  inRadix "0x" 16 <|> inRadix "0o" 8 <|> inRadix "0b" 2 <|> do
    let (minus, ds) ← whole
    let n ← Text.natural? 10 ds
    if minus then
      if n ≤ bound then return -n else failure
    else if n < bound then return n
    else failure

def fraction : Reader (List Char) := do
  char '.'
  digits Char.isDigit

def exponent : Reader Int := do
  let _ ← charIf fun c => c = 'e' || c = 'E'
  let minus ← sign
  let n ← Text.natural? 10 (← digits Char.isDigit)
  return if minus then -n else n

/-- Whether the number written by the digits and the exponent is too great for 64-bit floats. -/
def overflows (ds : List Char) (exponent : Int) : Bool :=
  let ds := ds.dropWhile (· = '0')
  let places := ds.length + exponent
  let bound := Nat.pow 2 1024 - Nat.pow 2 970
  match Text.natural? 10 ds with
  | none => false
  | some n =>
    if places < 300 then false
    else if 400 < places then true
    else if 0 ≤ exponent then bound ≤ n * Nat.pow 10 exponent.toNat
    else bound * Nat.pow 10 (-exponent).toNat ≤ n

/-- A float, which has a fraction or an exponent. One that is too great is refused. -/
def decimal : Reader Unit := do
  let (minus, ds) ← whole
  let places ← maybe fraction
  let e ← maybe exponent
  if places.isNone && e.isNone then failure
  let places := places.getD []
  if !minus && overflows (ds ++ places) (e.getD 0 - places.length) then failure

def special : Reader Unit := do
  let _ ← sign
  word "inf" <|> word "nan"

def float : Reader Unit := decimal <|> special

/-! ## Dates -/

def field (count : Nat) : Reader Nat := fun cs =>
  if cs.length < count || !(cs.take count).all Char.isDigit then none
  else (Text.natural? 10 (cs.take count)).map (·, cs.drop count)

def fieldIn (least greatest : Nat) : Reader Nat := do
  let n ← field 2
  if least ≤ n ∧ n ≤ greatest then return n else failure

def daysIn (year month : Nat) : Nat :=
  if month = 2 then
    if year % 4 = 0 ∧ (year % 100 ≠ 0 ∨ year % 400 = 0) then 29 else 28
  else if month ∈ [4, 6, 9, 11] then 30
  else 31

def day : Reader Unit := do
  let year ← field 4
  char '-'
  let month ← fieldIn 1 12
  char '-'
  let _ ← fieldIn 1 (daysIn year month)

/-- A time of day; a second may be a leap second. -/
def time : Reader Unit := do
  let _ ← fieldIn 0 23
  char ':'
  let _ ← fieldIn 0 59
  char ':'
  let _ ← fieldIn 0 60
  let _ ← maybe (do
    char '.'
    let ds ← takeWhile Char.isDigit
    if ds.isEmpty then failure)

def offset : Reader Unit := do
  match ← charIf fun c => c = 'Z' || c = 'z' || c = '+' || c = '-' with
  | '+' | '-' =>
    let _ ← fieldIn 0 23
    char ':'
    let _ ← fieldIn 0 59
  | _ => pure ()

/-- A day, a time, or both, with an offset or without one. -/
def date : Reader Unit :=
  (do
    day
    let _ ← maybe (do
      let _ ← charIf fun c => c = 'T' || c = 't' || c = ' '
      time
      let _ ← maybe offset))
  <|> time

/-! ## Scalars -/

def scalar : Reader Toml :=
  (do return .string (← string))
  <|> (do word "true"; return .boolean true)
  <|> (do word "false"; return .boolean false)
  <|> (do return .date (← taken date))
  <|> (do return .float (← taken float))
  <|> (do return .integer (← integer))

end Reader

end CellMachine.Toml
