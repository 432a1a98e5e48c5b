import CellMachine.Toml

/-!
# Tables that are being defined

A document defines its tables bit by bit: by headers, by dotted keys, and as tables on the way to
others. What may still be added to a table depends on how it came about, and no key may be defined
twice. A table in braces is defined by dotted keys in the same way, and complete where it ends.
-/

namespace CellMachine.Toml

inductive Origin where
  | header  -- by a header, in braces, or as the document itself
  | implied  -- on the way to a table with a header
  | dotted  -- by a dotted key
  deriving DecidableEq

/-- What a key stands for while its table is being defined. -/
inductive Branch where
  | leaf (value : Toml)
  | table (origin : Origin) (entries : List (String × Branch))
  -- An array of tables: those that are complete, and the one that is being defined.
  | tables (earlier : List Toml) (last : List (String × Branch))

abbrev Entries := List (String × Branch)

mutual

def Branch.value : Branch → Toml
  | .leaf value => value
  | .table _ entries => .table (valuesOf entries)
  | .tables earlier last => .array (earlier ++ [.table (valuesOf last)])

def valuesOf : List (String × Branch) → List (String × Toml)
  | [] => []
  | entry :: rest => valueOf entry :: valuesOf rest

def valueOf : String × Branch → String × Toml
  | (key, branch) => (key, branch.value)

end

namespace Entries

def put (entries : Entries) (key : String) (branch : Branch) : Entries :=
  if (entries.lookup key).isSome then
    entries.map fun entry => if entry.1 = key then (key, branch) else entry
  else entries ++ [(key, branch)]

/-- Define a dotted key in a table of the given origin. The tables on the way are made by need, and
existing ones must not have a header; only a table of dotted keys takes the last part of one. -/
def define (origin : Origin) (dotted : Bool) (value : Toml) : (key : List String) → Entries →
    Option Entries
  | [], _ => none
  | [key], entries =>
    if (decide (origin = .dotted)) = dotted && (entries.lookup key).isNone then
      some (entries.put key (.leaf value))
    else none
  | key :: rest, entries =>
    match entries.lookup key with
    | none => do return entries.put key (.table .dotted (← define .dotted true value rest []))
    | some (.table .header _) => none
    | some (.table origin inner) => do
      return entries.put key (.table origin (← define origin true value rest inner))
    | some (.tables earlier last) => do
      return entries.put key (.tables earlier (← define .header true value rest last))
    | some (.leaf _) => none

/-- Make a change in the table that a path of keys leads to. The tables on the way are made by
need. -/
def changeAt (change : String → Entries → Option Entries) : (path : List String) → Entries →
    Option Entries
  | [], _ => none
  | [key], entries => change key entries
  | key :: rest, entries =>
    match entries.lookup key with
    | none => do return entries.put key (.table .implied (← changeAt change rest []))
    | some (.table origin inner) => do
      return entries.put key (.table origin (← changeAt change rest inner))
    | some (.tables earlier last) => do
      return entries.put key (.tables earlier (← changeAt change rest last))
    | some (.leaf _) => none

/-- Open the table of a header. It is new, or a table on the way to others. -/
def openTable (path : List String) (entries : Entries) : Option Entries :=
  entries.changeAt (fun key entries =>
    match entries.lookup key with
    | none => some (entries.put key (.table .header []))
    | some (.table .implied inner) => some (entries.put key (.table .header inner))
    | some _ => none) path

def openItem (path : List String) (entries : Entries) : Option Entries :=
  entries.changeAt (fun key entries =>
    match entries.lookup key with
    | none => some (entries.put key (.tables [] []))
    | some (.tables earlier last) =>
      some (entries.put key (.tables (earlier ++ [.table (valuesOf last)]) []))
    | some _ => none) path

/-- Define a key in the table that the last header opened; without a header it is the document. -/
def defineIn (path : List String) (key : List String) (value : Toml) (entries : Entries) :
    Option Entries :=
  if path.isEmpty then entries.define .header false value key
  else
    entries.changeAt (fun last entries =>
      match entries.lookup last with
      | some (.table origin inner) => do
        return entries.put last (.table origin (← define origin false value key inner))
      | some (.tables earlier inner) => do
        return entries.put last (.tables earlier (← define .header false value key inner))
      | _ => none) path

def ofPairs? (pairs : List (List String × Toml)) : Option Entries :=
  pairs.foldlM (fun entries (key, value) => entries.define .header false value key) []

end Entries

inductive Line where
  | pair (key : List String) (value : Toml)
  | header (path : List String)  -- the header of a table
  | item (path : List String)

/-- The table that the lines of a document define, given the path of the last header. -/
def Entries.ofLines? : (path : List String) → Entries → List Line → Option Entries
  | _, entries, [] => some entries
  | path, entries, .pair key value :: rest => do
    ofLines? path (← entries.defineIn path key value) rest
  | _, entries, .header path :: rest => do ofLines? path (← entries.openTable path) rest
  | _, entries, .item path :: rest => do ofLines? path (← entries.openItem path) rest

end CellMachine.Toml
