/-!
# TOML values

The values of the TOML format. A table keeps its entries in the order in which they are defined, and
no key is defined twice. Floats and dates are kept as they are written.
-/

namespace CellMachine

inductive Toml where
  | string (text : String)
  | integer (n : Int)
  | float (text : List Char)
  | boolean (b : Bool)
  | date (text : List Char)
  | array (items : List Toml)
  | table (entries : List (String × Toml))

namespace Toml

instance : Inhabited Toml := ⟨table []⟩

/-- The values of a list of fields: those of the entries that the fields name if they are given as a
table, and the items in order if they are given as an array. Any other value has no fields. -/
def fields? (names : List String) : Toml → Option (List (Option Toml))
  | table entries => some (names.map fun name => entries.lookup name)
  | array items => some ((List.range names.length).map fun n => items[n]?)
  | _ => none

/-- The name of an alternative without contents: a text, or a table whose one entry is empty. -/
def alternative? : Toml → Option String
  | string text => some text
  | table [(name, table [])] => some name
  | table [(name, array [])] => some name
  | _ => none

def string? : Toml → Option String
  | string text => some text
  | _ => none

def boolean? : Toml → Option Bool
  | boolean b => some b
  | _ => none

def natural? : Toml → Option Nat
  | integer (.ofNat n) => some n
  | _ => none

def strings? : Toml → Option (List String)
  | array items => items.mapM string?
  | _ => none

end Toml

end CellMachine
