import CellMachine.Extension
import CellMachine.Namespace

/-!
# Namespace tables

All namespaces of an execution, by their ids, each with the extension that is bound to it. A table
starts with the empty namespace 0.
-/

namespace CellMachine

structure Slot where
  memory : Namespace := ∅
  handler : Option Handler := none

abbrev Table := OrderedMap UInt32 Slot

namespace Table

def initial : Table := OrderedMap.empty.insert 0 {}

def memory (t : Table) (id : UInt32) : Except Fault Namespace :=
  match t.get? id with
  | some slot => .ok slot.memory
  | none => .error (.undefinedNamespace id)

/-- Put cells in place of those of a namespace, which has to exist. -/
def setMemory (t : Table) (id : UInt32) (ns : Namespace) : Except Fault Table :=
  match t.get? id with
  | some slot => .ok (t.insert id { slot with memory := ns })
  | none => .error (.undefinedNamespace id)

/-- Create a namespace. One that exists loses its cells and its extension. -/
def create (t : Table) (id : UInt32) : Table := t.insert id {}

def delete (t : Table) (id active : UInt32) : Except Fault Table :=
  if id = active then .error (.cannotDeleteActiveNamespace id)
  else if t.contains id then .ok (t.erase id)
  else .error (.undefinedNamespace id)

def retainOnly (t : Table) (id : UInt32) : Table := t.retain (· == id)

def handler? (t : Table) (id : UInt32) : Option Handler := (t.get? id).bind (·.handler)

def bind (t : Table) (id : UInt32) (h : Handler) : Except Fault Table :=
  match t.get? id with
  | some slot => .ok (t.insert id { slot with handler := some h })
  | none => .error (.undefinedNamespace id)

def unbind (t : Table) (id : UInt32) : Table :=
  match t.get? id with
  | some slot => t.insert id { slot with handler := none }
  | none => t

def inspect (t : Table) : String :=
  "\x7b" ++ ", ".intercalate (t.toList.map fun (id, slot) =>
    toString id.toNat ++ ": " ++ slot.memory.inspect) ++ "\x7d"

end Table

end CellMachine
