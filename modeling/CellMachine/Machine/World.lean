import CellMachine.Extension.Plugin
import CellMachine.Files.Provider
import CellMachine.Input
import CellMachine.Machine.Data
import CellMachine.Program
import CellMachine.Sink
import CellMachine.Table

/-!
# The state of a machine

An `Executor` runs one instruction sequence. All executors of an execution share a `World`: the
namespace table, the files, the input, the sink and the stop flag.

An instruction is an `Action` on a `Focus`, which is the world together with the executor that the
instruction belongs to. An action that fails keeps the state that it has reached; most fail before
they have changed anything.
-/

namespace CellMachine

/-- What the clock of the host shows when an execution starts. -/
structure WallClock where
  epochTime : Binary32 := .zero false
  localTime : String := "Thu Jan  1 00:00:00 1970"

structure Options where
  mode : ErrorMode := default
  -- Whether restricted providers, imports and plugins are open to the program.
  superuser : Bool := false
  args : List String := []
  -- How many instructions an executor may run.
  limit : Option Nat := none
  pluginDirs : List String := []
  registry : Registry := ∅
  loader : Loader := fun _ _ => .error "not a library"
  clock : WallClock := {}

/-- One instruction sequence that is being run. -/
structure Executor where
  program : Program
  ip : Nat := 0
  active : UInt32
  -- Whether nothing has halted the executor.
  running : Bool := true
  -- Whether an error was handled in a mode in which it counts.
  errored : Bool := false
  lastError : Option Fault := none
  mode : ErrorMode := default
  output : Bytes := []
  -- Whether file instructions use the bundle's files.
  usesBundle : Bool := false
  -- How many instructions have been started.
  steps : Nat := 0
  -- The time that has gone by on the executor's thread, in nanoseconds.
  clock : Nat := 0
  deriving DecidableEq, Inhabited

structure Outcome where
  output : Bytes := []
  errored : Bool := false
  error : Option Fault := none
  deriving DecidableEq

def Executor.outcome (e : Executor) : Outcome := ⟨e.output, e.errored, e.lastError⟩

/-- What the executors of an execution share. -/
structure World where
  table : Table := .initial
  host : Host := {}
  primary : Provider := .memory ∅ false
  bundle : Option Provider := none
  input : Input := .scripted []
  sink : Option Sink := none
  -- Whether every executor is to stop before its next instruction.
  stopped : Bool := false
  -- Executors that are to be given threads of their own.
  arrivals : List Executor := []
  -- How many times a handler has been bound.
  binds : Nat := 0
  notes : OrderedMap String Bytes := ∅
  -- The calls of handlers, in the order in which they have come back.
  calls : List HookCall := []

/-- The world, and one executor in it. -/
structure Focus where
  world : World
  exec : Executor

/-- Why an action does not complete. -/
inductive Abort where
  | fault (f : Fault)  -- the instruction fails
  | panic (p : Panic)  -- the thread ends
  deriving DecidableEq

abbrev Action := EStateM Abort Focus

/-- An action whose faults have been handled, so that nothing but a panic can end it. -/
abbrev Guarded := EStateM Panic Focus

/-- Print a text, if anything is listening. -/
def Guarded.print (text : String) : Guarded Unit := do
  let s ← get
  match s.world.sink with
  | none => pure ()
  | some sink =>
    match sink.write text with
    | .ok sink => set { s with world := { s.world with sink := some sink } }
    | .error p => throw p

namespace Action

def ofExcept {α : Type} : Except Fault α → Action α
  | .ok a => pure a
  | .error f => throw (.fault f)

def fail {α : Type} (f : Fault) : Action α := throw (.fault f)

def modifyWorld (f : World → World) : Action Unit := modify fun s => { s with world := f s.world }

def modifyExec (f : Executor → Executor) : Action Unit :=
  modify fun s => { s with exec := f s.exec }

def memory : Action Namespace := do
  let s ← get
  ofExcept (s.world.table.memory s.exec.active)

def reading {α : Type} (f : Namespace → Except Fault α) : Action α := do
  ofExcept (f (← memory))

def setTable (t : Table) : Action Unit := modifyWorld fun w => { w with table := t }

def setMemory (ns : Namespace) : Action Unit := do
  let s ← get
  setTable (← ofExcept (s.world.table.setMemory s.exec.active ns))

def setCell (address : UInt32) (value : Bytes) : Action Unit := do
  setMemory ((← memory).insert address value)

def emit (bytes : Bytes) : Action Unit := modifyExec fun e => { e with output := e.output ++ bytes }

/-- Print a text, if anything is listening. -/
def print (text : String) : Action Unit := fun s =>
  match Guarded.print text s with
  | .ok a s => .ok a s
  | .error p s => .error (.panic p) s

def onInput {α : Type} (a : InputAction α) : Action α := do
  match a.run (← get).world.input with
  | .ok value input =>
    modifyWorld fun w => { w with input }
    return value
  | .error e input =>
    modifyWorld fun w => { w with input }
    fail (.ofProvider e)

def provider : Action Provider := do
  let s ← get
  if s.exec.usesBundle then
    match s.world.bundle with
    | some p => return p
    | none => fail (.io .noBundle)
  else return s.world.primary

/-- Put the provider and the system after a file action in their places. -/
def setStorage (storage : Storage) : Action Unit := modify fun s =>
  if s.exec.usesBundle then
    { s with world := { s.world with host := storage.host, bundle := some storage.provider } }
  else { s with world := { s.world with host := storage.host, primary := storage.provider } }

def onFiles {α : Type} (a : FileAction α) : Action α := do
  let p ← provider
  match a.run ⟨p, (← get).world.host⟩ with
  | .ok value storage =>
    setStorage storage
    return value
  | .error e storage =>
    setStorage storage
    fail (.ofProvider e)

end Action

inductive Flow where
  | next
  | jump (position : Nat)
  | halt
  deriving DecidableEq

end CellMachine
