import CellMachine.Toml.Scalar
import CellMachine.Toml.Table

/-!
# TOML documents

Arrays, tables in braces and the lines of a document. `Toml.parse?` gives the table that a whole
text defines.
-/

namespace CellMachine.Toml

namespace Reader

/-- The items of an array up to its closing bracket. A comma may follow the last one, and items may
stand on lines of their own. -/
def items (item : Reader Toml) : (fuel : Nat) → Reader (List Toml)
  | 0 => failure
  | fuel + 1 => do
    commentLines
    match ← maybe (char ']') with
    | some () => return []
    | none =>
      let first ← item
      commentLines
      match ← maybe (char ',') with
      | some () => return first :: (← items item fuel)
      | none =>
        char ']'
        return [first]

def array (item : Reader Toml) : Reader Toml := do
  char '['
  return .array (← items item ((← get).length + 1))

def pair (value : Reader Toml) : Reader (List String × Toml) := do
  let key ← key
  char '='
  blanks
  return (key, ← value)

/-- The pairs of a table in braces, behind its opening brace if there is one, up to the closing
brace. All stand on one line, and no comma follows the last one. -/
def pairs (value : Reader Toml) : (fuel : Nat) → Reader (List (List String × Toml))
  | 0 => failure
  | fuel + 1 => do
    let first ← pair value
    blanks
    match ← maybe (char ',') with
    | some () => return first :: (← pairs value fuel)
    | none =>
      char '\x7d'
      return [first]

def inlineTable (value : Reader Toml) : Reader Toml := do
  char '\x7b'
  blanks
  match ← maybe (char '\x7d') with
  | some () => return .table []
  | none =>
    let entries ← Entries.ofPairs? (← pairs value ((← get).length + 1))
    return .table (valuesOf entries)

def value : (depth : Nat) → Reader Toml
  | 0 => scalar
  | depth + 1 => scalar <|> array (value depth) <|> inlineTable (value depth)

def header : Reader Line :=
  (do
    word "[["
    let path ← key
    word "]]"
    return .item path)
  <|> do
    char '['
    let path ← key
    char ']'
    return .header path

def line : Reader (Option Line) := do
  blanks
  match ← maybe lineEnd with
  | some () => return none
  | none =>
    let l ← header <|> do
      let (key, value) ← pair (value (depthLimit - 1))
      return .pair key value
    lineEnd
    return some l

def lines : (fuel : Nat) → Reader (List Line)
  | 0 => failure
  | fuel + 1 => do
    match ← maybe atEnd with
    | some () => return []
    | none =>
      let l ← line
      let rest ← lines fuel
      return l.toList ++ rest

end Reader

/-- The table that a text defines. A byte order mark in front of it does not count. -/
def parse? (text : String) : Option Toml := do
  let cs := match text.toList with
    | '\ufeff' :: cs => cs
    | cs => cs
  let (lines, _) ← Reader.lines (cs.length + 1) cs
  let entries ← Entries.ofLines? [] [] lines
  return .table (valuesOf entries)

end CellMachine.Toml
