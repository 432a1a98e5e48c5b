import CellMachine.Fault
import CellMachine.Frame
import CellMachine.OrderedMap
import CellMachine.Text.Quoted
import CellMachine.Text.Utf8

/-!
# Namespaces

A namespace is the memory of a program: cells with 32-bit addresses, each undefined or a byte
string. Its snapshot is one byte string with the address and the value of every cell in ascending
order of addresses.
-/

namespace CellMachine

abbrev Namespace := OrderedMap UInt32 Bytes

namespace Namespace

def load (ns : Namespace) (address : UInt32) : Except Fault Bytes :=
  match ns.get? address with
  | some value => .ok value
  | none => .error (.undefinedAddress address)

def remove (ns : Namespace) (address : UInt32) : Except Fault Namespace :=
  if ns.contains address then .ok (ns.erase address) else .error (.undefinedAddress address)

def snapshot (ns : Namespace) : Bytes :=
  ns.toList.flatMap fun (address, value) => Bytes.ofWord address ++ value.framed

def readCell : Reading (UInt32 × Bytes) := do
  let address ← Reading.word "snapshot address"
  return (address, ← Reading.frame "snapshot value")

/-- The namespace that a snapshot is of. Of two cells with one address the later counts. -/
def ofSnapshot (input : Bytes) : Except DecodeError Namespace :=
  ((Reading.toEnd readCell).runOn input).map OrderedMap.ofList

/-- Put the cells of a snapshot in place of the present ones, which stay if it is none. -/
def restore (input : Bytes) : EStateM DecodeError Namespace Unit := fun ns =>
  match ofSnapshot input with
  | .ok ns' => .ok () ns'
  | .error e => .error e ns

/-- The cells as they are dumped: addresses and quoted texts between braces. -/
def render (ns : Namespace) : String :=
  "\x7b" ++ ", ".intercalate (ns.toList.map fun (address, value) =>
    toString address.toNat ++ ": " ++ Text.quoted (Text.lossy value)) ++ "\x7d"

def inspect (ns : Namespace) : String :=
  "Namespace \x7b cells: \x7b" ++ ", ".intercalate (ns.toList.map fun (address, value) =>
    toString address.toNat ++ ": " ++ Text.listed value) ++ "\x7d \x7d"

end Namespace

end CellMachine
