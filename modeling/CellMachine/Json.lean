import CellMachine.Text.Numeral

/-!
# JSON

A value type, the reader and the printer. The reader keeps object members in the order in which
they stand and duplicates with them, since what to do about those is for the caller to say.
-/

namespace CellMachine

inductive Json where
  | null
  | bool (b : Bool)
  -- A number without a fraction or an exponent that is not written `-0`.
  | integer (n : Int)
  -- Any other number, as it is written.
  | real (text : List Char)
  -- A string; `none` if an escape in it names half of a surrogate pair.
  | string (s : Option (List Char))
  | array (items : List Json)
  | object (members : List (List Char × Json))

namespace Json

/-! ## Printing -/

def newline (depth : Nat) : String := "\n" ++ String.ofList (List.replicate (2 * depth) ' ')

def escaped (c : Char) : String :=
  let control (n : Nat) : String :=
    "\\u00" ++ (if n < 16 then "0" else "1") ++ String.singleton (Nat.digitChar (n % 16))
  match c with
  | '"' => "\\\""
  | '\\' => "\\\\"
  | '\n' => "\\n"
  | '\r' => "\\r"
  | '\t' => "\\t"
  | '\x08' => "\\b"
  | '\x0c' => "\\f"
  | c => if c.toNat < 32 then control c.toNat else String.singleton c

def quotedString (s : List Char) : String := "\"" ++ String.join (s.map escaped) ++ "\""

mutual

/-- A value with every item and every member on a line of its own, indented by two spaces. -/
def pretty (depth : Nat) : Json → String
  | .null => "null"
  | .bool b => if b then "true" else "false"
  | .integer n => toString n
  | .real text => String.ofList text
  | .string s => quotedString (s.getD [])
  | .array [] => "[]"
  | .array (item :: items) =>
    "[" ++ newline (depth + 1) ++ pretty (depth + 1) item ++ prettyItems (depth + 1) items ++
      newline depth ++ "]"
  | .object [] => "\x7b\x7d"
  | .object (member :: members) =>
    "\x7b" ++ newline (depth + 1) ++ prettyMember (depth + 1) member ++
      prettyMembers (depth + 1) members ++ newline depth ++ "\x7d"

def prettyItems (depth : Nat) : List Json → String
  | [] => ""
  | item :: items => "," ++ newline depth ++ pretty depth item ++ prettyItems depth items

def prettyMember (depth : Nat) : List Char × Json → String
  | (key, value) => quotedString key ++ ": " ++ pretty depth value

def prettyMembers (depth : Nat) : List (List Char × Json) → String
  | [] => ""
  | member :: members =>
    "," ++ newline depth ++ prettyMember depth member ++ prettyMembers depth members

end

/-! ## Reading -/

def skipBlanks (cs : List Char) : List Char :=
  cs.dropWhile fun c => c = ' ' || c = '\n' || c = '\t' || c = '\r'

def hexUnit? : List Char → Option (Nat × List Char)
  | a :: b :: c :: d :: rest => (Text.digits? 16 0 [a, b, c, d]).map (·, rest)
  | _ => none

def escape? : Char → Option Char
  | '"' => some '"'
  | '\\' => some '\\'
  | '/' => some '/'
  | 'b' => some '\x08'
  | 'f' => some '\x0c'
  | 'n' => some '\n'
  | 'r' => some '\r'
  | 't' => some '\t'
  | _ => none

inductive Piece where
  | close (rest : List Char)
  -- A character, or `none` for half of a surrogate pair.
  | char (c : Option Char) (rest : List Char)

def piece? : List Char → Option Piece
  | '"' :: rest => some (.close rest)
  | '\\' :: 'u' :: rest => do
    let (unit, rest) ← hexUnit? rest
    if 0xD800 ≤ unit ∧ unit < 0xDC00 then
      match rest with
      | '\\' :: 'u' :: more =>
        let (low, more) ← hexUnit? more
        if 0xDC00 ≤ low ∧ low < 0xE000 then
          return .char (some (Char.ofNat (0x10000 + (unit - 0xD800) * 1024 + (low - 0xDC00)))) more
        else return .char none rest
      | _ => return .char none rest
    else if 0xDC00 ≤ unit ∧ unit < 0xE000 then return .char none rest
    else return .char (some (Char.ofNat unit)) rest
  | '\\' :: c :: rest => (escape? c).map fun c => .char (some c) rest
  | c :: rest => if c = '\\' ∨ c.toNat < 32 then none else some (.char (some c) rest)
  | [] => none

def stringTail? : (fuel : Nat) → List Char → Option (Option (List Char) × List Char)
  | 0, _ => none
  | fuel + 1, cs => do
    match ← piece? cs with
    | .close rest => return (some [], rest)
    | .char c rest =>
      let (tail, rest) ← stringTail? fuel rest
      return (c.bind fun c => tail.map (c :: ·), rest)

/-- The number in front of the text: no leading zeros, and digits on both sides of a point. -/
def number? (cs : List Char) : Option (Json × List Char) := do
  let digits (cs : List Char) := (cs.takeWhile Char.isDigit, cs.dropWhile Char.isDigit)
  let (sign, rest) := match cs with
    | '-' :: rest => (['-'], rest)
    | _ => ([], cs)
  let (whole, rest) := digits rest
  let value ← Text.natural? 10 whole
  if whole.head? = some '0' ∧ whole ≠ ['0'] then none
  else
    let (fraction, rest) ← match rest with
      | '.' :: rest =>
        let (places, rest) := digits rest
        if places.isEmpty then none else some ('.' :: places, rest)
      | _ => some ([], rest)
    let (exponent, rest) ← match rest with
      | e :: rest' =>
        if e = 'e' ∨ e = 'E' then
          let (mark, rest') := match rest' with
            | '+' :: more => ([e, '+'], more)
            | '-' :: more => ([e, '-'], more)
            | _ => ([e], rest')
          let (ds, rest') := digits rest'
          if ds.isEmpty then none else some (mark ++ ds, rest')
        else some ([], rest)
      | [] => some ([], [])
    if fraction.isEmpty && exponent.isEmpty && !(!sign.isEmpty && value = 0) then
      return (.integer (if sign.isEmpty then value else -(value : Int)), rest)
    else return (.real (sign ++ whole ++ fraction ++ exponent), rest)

def keyword? (word : String) (cs : List Char) : Option (List Char) :=
  if word.toList.isPrefixOf cs then some (cs.drop word.length) else none

mutual

def value? : (fuel : Nat) → List Char → Option (Json × List Char)
  | 0, _ => none
  | fuel + 1, cs =>
    match skipBlanks cs with
    | [] => none
    | 'n' :: rest => (keyword? "ull" rest).map (.null, ·)
    | 't' :: rest => (keyword? "rue" rest).map (.bool true, ·)
    | 'f' :: rest => (keyword? "alse" rest).map (.bool false, ·)
    | '"' :: rest => (stringTail? fuel rest).map fun (s, rest) => (.string s, rest)
    | '[' :: rest =>
      match skipBlanks rest with
      | ']' :: rest => some (.array [], rest)
      | _ => (items? fuel rest).map fun (items, rest) => (.array items, rest)
    | c :: rest =>
      if c = '\x7b' then
        match skipBlanks rest with
        | '\x7d' :: rest => some (.object [], rest)
        | _ => (members? fuel rest).map fun (members, rest) => (.object members, rest)
      else number? (c :: rest)

def items? : (fuel : Nat) → List Char → Option (List Json × List Char)
  | 0, _ => none
  | fuel + 1, cs => do
    let (item, rest) ← value? fuel cs
    match skipBlanks rest with
    | ']' :: rest => return ([item], rest)
    | ',' :: rest =>
      let (items, rest) ← items? fuel rest
      return (item :: items, rest)
    | _ => none

def members? : (fuel : Nat) → List Char → Option (List (List Char × Json) × List Char)
  | 0, _ => none
  | fuel + 1, cs => do
    match skipBlanks cs with
    | '"' :: rest =>
      let (key, rest) ← stringTail? fuel rest
      let key ← key
      match skipBlanks rest with
      | ':' :: rest =>
        let (value, rest) ← value? fuel rest
        match skipBlanks rest with
        | '\x7d' :: rest => return ([(key, value)], rest)
        | ',' :: rest =>
          let (members, rest) ← members? fuel rest
          return ((key, value) :: members, rest)
        | _ => none
      | _ => none
    | _ => none

end

/-- The value that a whole text writes. Every step of the reader takes a character or goes one level
down, so twice the length is fuel enough. -/
def parse? (s : String) : Option Json :=
  let cs := s.toList
  match value? (2 * cs.length + 2) cs with
  | some (value, rest) => if (skipBlanks rest).isEmpty then some value else none
  | none => none

end Json

end CellMachine
