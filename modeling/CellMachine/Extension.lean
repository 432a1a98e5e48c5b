import CellMachine.Fault
import CellMachine.OrderedMap
import CellMachine.Panic

/-!
# Extensions

An extension handler is bound to a namespace. While that namespace is active, the machine calls the
handler before and after every instruction, and hands it the opcodes that it claims and that are
not native.

A handler acts on the machine only through `Act`: it may read, write and delete cells of the active
namespace, append to the output, print, refuse, and panic. An act is a tree of such requests, each
with what to do with the answer. A print has no answer, so a handler cannot tell whether anything is
listening.

What a handler keeps from one call to the next is not in it but in notes under names, which all
handlers share. A handler that is made anew for every binding has notes of its own if its names
depend on the number that it is made with.
-/

namespace CellMachine

inductive Act (α : Type) : Type where
  | done (a : α)
  | refuse (message : String)
  | panic (p : Panic)
  | read (address : UInt32) (next : Except Fault Bytes → Act α)
  | write (address : UInt32) (value : Bytes) (next : Except Fault Unit → Act α)
  | delete (address : UInt32) (next : Except Fault Unit → Act α)
  | emit (bytes : Bytes) (next : Act α)
  | print (text : String) (next : Act α)
  | lookUp (name : String) (next : Option Bytes → Act α)
  | note (name : String) (value : Bytes) (next : Act α)

namespace Act

def bind {α β : Type} (a : Act α) (f : α → Act β) : Act β :=
  match a with
  | done a => f a
  | refuse message => refuse message
  | panic p => panic p
  | read address next => read address fun r => (next r).bind f
  | write address value next => write address value fun r => (next r).bind f
  | delete address next => delete address fun r => (next r).bind f
  | emit bytes next => emit bytes (next.bind f)
  | print text next => print text (next.bind f)
  | lookUp name next => lookUp name fun r => (next r).bind f
  | note name value next => note name value (next.bind f)

instance : Monad Act where
  pure := done
  bind := bind

def ofAnswer {α : Type} : Except Fault α → Act α
  | .ok a => done a
  | .error e => refuse e.message

def load (address : UInt32) : Act Bytes := read address ofAnswer

def store (address : UInt32) (value : Bytes) : Act Unit := write address value ofAnswer

def erase (address : UInt32) : Act Unit := delete address ofAnswer

def output (bytes : Bytes) : Act Unit := emit bytes (done ())

def say (text : String) : Act Unit := print text (done ())

def remember (name : String) : Act (Option Bytes) := lookUp name done

def keep (name : String) (value : Bytes) : Act Unit := note name value (done ())

end Act

/-- The instruction that a handler is called about, and where it stands. -/
structure Call where
  opcode : UInt32
  args : List Bytes
  ip : Nat
  active : UInt32

structure Handler where
  name : String
  claimed : List UInt32
  before : Call → Act Unit := fun _ => pure ()
  after : Call → Act Unit := fun _ => pure ()
  handle : Call → Act Unit

def Handler.claims (h : Handler) (opcode : UInt32) : Bool := h.claimed.contains opcode

inductive Hook where
  | before | after | handle
  deriving DecidableEq

def Handler.hook (h : Handler) : Hook → Call → Act Unit
  | .before => h.before
  | .after => h.after
  | .handle => h.handle

structure HookCall where
  handler : Handler
  hook : Hook
  call : Call
  failure : Option Fault

/-- The handler that a program binds when so many bindings have been made before. -/
abbrev Factory := Nat → Handler

abbrev Registry := OrderedMap String Factory

namespace Registry

/-- A registry of handlers under their own names, each of them shared by all its bindings. -/
def ofHandlers (handlers : List Handler) : Registry :=
  OrderedMap.ofList (handlers.map fun h => (h.name, fun _ => h))

def inspect (r : Registry) : String := Text.bracketed (r.keys.map Text.quoted)

end Registry

end CellMachine
