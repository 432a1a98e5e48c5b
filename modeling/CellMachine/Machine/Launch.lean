import CellMachine.Machine.Hooks
import CellMachine.Machine.Instructions

/-!
# Instructions beyond an executor

The instructions that bind and call extensions, that give part of the program a thread of its own,
and that run another program in place. An `Effect` says whether the instruction is over or waits
for another executor.
-/

namespace CellMachine

/-- What becomes of the outcome of an executor that was waited for. -/
inductive Reception where
  | ignore
  -- Its output is appended, and then the instruction may fail.
  | append (failure : Option Fault)
  deriving DecidableEq

inductive Effect where
  | flow (f : Flow)
  -- It waits for an executor that runs on its own thread.
  | call (callee : Executor) (reception : Reception)
  -- It waits for an executor that runs on a thread of that one's own.
  | join (child : Executor)

namespace Action

/-! ## Extensions -/

def callExtension (i : Instruction) : Action Flow := do
  match ← handler? with
  | some h =>
    if h.claims i.opcode then
      h.call .handle i
      return .next
    else fail (.unknownOpcode i.opcode)
  | none => fail (.unknownOpcode i.opcode)

/-- Whether something is refused because the primary files are restricted. -/
def checkRestricted (o : Options) (action target : String) : Action Unit := do
  ofExcept ((checkAccess (← get).world.primary.isRestricted o.superuser action target).mapError
    .ofProvider)

def resolveExtension (o : Options) (name : String) : Action Handler := do
  match o.registry.get? name with
  | some make => return make (← get).world.binds
  | none =>
    if o.pluginDirs.isEmpty then fail (.extension (.unknown name))
    else
      checkRestricted o "load plugin" name
      let host := (← get).world.host
      match Plugin.find? host name o.pluginDirs with
      | none => fail (.extension (.absent name))
      | some path =>
        return (← ofExcept ((Plugin.load o.loader host name path).mapError .extension)).handler

def bindExtension (o : Options) (i : Instruction) : Action Flow := do
  let name ← reading fun ns => i.text ns 0
  let h ← resolveExtension o name
  let s ← get
  setTable (← ofExcept (s.world.table.bind s.exec.active h))
  modifyWorld fun w => { w with binds := w.binds + 1 }
  return .next

def unbindExtension : Action Flow := do
  let s ← get
  setTable (s.world.table.unbind s.exec.active)
  return .next

/-! ## Threads -/

/-- The executor that starts on a program where another one stands. -/
def offspring (e : Executor) (p : Program) (active : UInt32) : Executor :=
  { program := p, active, mode := e.mode, usesBundle := e.usesBundle, clock := e.clock }

/-- Check that a range is part of a program of the given size, and does not hold the position. -/
def checkRange (first past size ip : Nat) : Except Fault Unit :=
  if past < first ∨ size < past then .error (.decode (.range first past size))
  else if first ≤ ip ∧ ip < past then .error (.decode (.ownRange first past ip))
  else .ok ()

/-- Ask the host for a thread. -/
def askForThread : Action Unit := do
  match (← get).world.host.refusal with
  | some reason => fail (.io (.noThread reason))
  | none => pure ()

/-- Move the instructions from one position up to another out of the program and onto a thread of
their own. The position follows the spawning instruction to its new place. When the host is asked
for the thread, the instructions have been taken out already, and a refusal leaves them out. -/
def spawn (first past : Nat) (joined : Bool) : Action Effect := do
  let e := (← get).exec
  ofExcept (checkRange first past e.program.size e.ip)
  let (left, taken) := e.program.cut first past
  modifyExec fun e =>
    { e with program := left, ip := if past ≤ e.ip then e.ip - (past - first) else e.ip }
  askForThread
  let child := offspring e taken e.active
  if joined then return .join child
  else
    modifyWorld fun w => { w with arrivals := w.arrivals ++ [child] }
    return .flow .next

def spawnCells (joined : Bool) (i : Instruction) : Action Effect := do
  let (first, past) ← reading fun ns => do
    let first ← i.uint ns 0
    return (first, ← i.uint ns 1)
  spawn first.toNat past.toNat joined

def spawnLabels (joined : Bool) (i : Instruction) : Action Effect := do
  let p := (← get).exec.program
  let first ← ofExcept (label i p 0)
  let past ← ofExcept (label i p 1)
  spawn first past joined

/-! ## Programs in place -/

def run (binary : Bytes) (active : UInt32) (reception : Reception) : Action Effect := do
  let p ← ofExcept ((Program.decode binary).mapError .ofDecode)
  return .call (offspring (← get).exec p active) reception

def importModule (o : Options) (i : Instruction) : Action Effect := do
  let (name, id) ← reading fun ns => do
    let name ← i.text ns 0
    return (name, ← i.uint ns 1)
  if (← get).world.table.contains id then
    checkRestricted o "import" name
    run (← onFiles (Provider.read name)) id .ignore
  else fail (.undefinedNamespace id)

/-- Compile a source text and run it, also the part before a fault. -/
def runSource (i : Instruction) : Action Effect := do
  let source ← reading fun ns => i.text ns 0
  let c := Source.compile source
  run c.bytes (← get).exec.active (.append (c.error.map .compile))

def runBinary (i : Instruction) : Action Effect := do
  let v ← reading fun ns => i.value ns 0
  run v (← get).exec.active (.append none)

end Action

/-! ## Dispatch -/

def Action.atOnce (a : Action Flow) : Action Effect := do
  return .flow (← a)

namespace Opcode

/-- What a native opcode does with the arguments of an instruction. -/
def run (op : Opcode) (o : Options) (i : Instruction) : Action Effect :=
  match op with
  | start | nop | label => return .flow .next
  | halt => .atOnce (.halt i)
  | stopAll => .atOnce .stopAll
  | data op => .atOnce (.data op i)
  | delete => .atOnce (.deleteCell i)
  | clearMemory => .atOnce .clearMemory
  | restore => .atOnce (.restore i)
  | jump c => .atOnce (.jump c i)
  | branch c => .atOnce (.branch c i)
  | jumpLabel c => .atOnce (.jumpLabel c i)
  | branchLabel c => .atOnce (.branchLabel c i)
  | setErrorMode m => .atOnce (.setErrorMode m)
  | readLine => .atOnce (.readLine i)
  | readChars => .atOnce (.readChars i)
  | runtimeArg => .atOnce (.runtimeArg o i)
  | runtimeArgCount => .atOnce (.runtimeArgCount o i)
  | dumpMemory => .atOnce .dumpMemory
  | write => .atOnce (.write i)
  | readFile => .atOnce (.readFile i)
  | writeFile => .atOnce (.writeFile o i)
  | deleteFile => .atOnce (.deleteFile o i)
  | listFiles => .atOnce (.listFiles i)
  | runCommand => .atOnce (.runCommand o i)
  | dumpProgram => .atOnce (.dumpProgram i)
  | loadProgram => .atOnce (.loadProgram i)
  | getOutput => .atOnce (.getOutput i)
  | setOutput => .atOnce (.setOutput i)
  | epochTime => .atOnce (.epochTime o i)
  | localTime => .atOnce (.localTime o i)
  | sleep => .atOnce (.sleep i)
  | useBundleFiles => .atOnce (.useFiles true)
  | usePrimaryFiles => .atOnce (.useFiles false)
  | switchNamespace => .atOnce (.switchNamespace i)
  | createNamespace => .atOnce (.createNamespace i)
  | deleteNamespace => .atOnce (.deleteNamespace i)
  | listNamespaces => .atOnce (.listNamespaces i)
  | pruneNamespaces => .atOnce .pruneNamespaces
  | copyToNamespace => .atOnce (.copyToNamespace i)
  | spawn false joined => .spawnCells joined i
  | spawn true joined => .spawnLabels joined i
  | importModule => .importModule o i
  | runSource => .runSource i
  | compileSource => .atOnce (.compileSource i)
  | runBinary => .runBinary i
  | bindExtension => .atOnce (.bindExtension o i)
  | unbindExtension => .atOnce .unbindExtension

end Opcode

/-- What an instruction does: its native opcode, or what the bound extension makes of it. -/
def Instruction.run (i : Instruction) (o : Options) : Action Effect :=
  match Opcode.ofCode? i.opcode with
  | some op => op.run o i
  | none => .atOnce (.callExtension i)

end CellMachine
