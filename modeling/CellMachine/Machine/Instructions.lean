import CellMachine.Machine.World
import CellMachine.Source.Compile

/-!
# Instructions within an executor

The instructions that neither start another executor nor call an extension: on cells, on the place
in the program, on namespaces, on input, output and files, and on the program and the output
themselves.
-/

namespace CellMachine.Action

/-! ## Cells -/

def data (op : DataOp) (i : Instruction) : Action Flow := do
  let s ← get
  let (dest, v) ← ofExcept (op.eval i (s.world.table.memory s.exec.active))
  setCell dest v
  return .next

def deleteCell (i : Instruction) : Action Flow := do
  let address ← ofExcept (i.address 0)
  setMemory (← reading fun ns => ns.remove address)
  return .next

def clearMemory : Action Flow := do
  let _ ← memory
  setMemory ∅
  return .next

def restore (i : Instruction) : Action Flow := do
  let ns ← reading fun ns => do
    match Namespace.restore (← i.value ns 0) ns with
    | .ok _ ns => return ns
    | .error e _ => throw (.ofDecode e)
  setMemory ns
  return .next

/-! ## Control -/

def checkTarget (position size : Nat) : Except Fault Nat :=
  if position < size then .ok position else .error (.decode (.target position size))

def target (i : Instruction) (size : Nat) (ns : Namespace) (n : Nat) : Except Fault Nat := do
  checkTarget (← i.uint ns n).toNat size

def label (i : Instruction) (p : Program) (n : Nat) : Except Fault Nat := do
  let name ← i.arg n
  match p.label? name with
  | some position => return position
  | none => throw (.undefinedLabel (Text.lossy name))

def jump (c : Condition) (i : Instruction) : Action Flow := do
  let size := (← get).exec.program.size
  reading fun ns => do
    if ← c.holds i ns then return .jump (← target i size ns 0) else return .next

def branch (c : Condition) (i : Instruction) : Action Flow := do
  let size := (← get).exec.program.size
  reading fun ns => do
    if ← c.holds i ns then return .jump (← target i size ns 0)
    else return .jump (← target i size ns 3)

def jumpLabel (c : Condition) (i : Instruction) : Action Flow := do
  let p := (← get).exec.program
  if ← reading (c.holds i) then return .jump (← ofExcept (label i p 0)) else return .next

def branchLabel (c : Condition) (i : Instruction) : Action Flow := do
  let p := (← get).exec.program
  if ← reading (c.holds i) then return .jump (← ofExcept (label i p 0))
  else return .jump (← ofExcept (label i p 3))

def halt (i : Instruction) : Action Flow := do
  if i.args.isEmpty then return .halt
  else
    emit (← reading fun ns => i.value ns 0)
    return .halt

def stopAll : Action Flow := do
  modifyWorld fun w => { w with stopped := true }
  return .halt

def setErrorMode (m : ErrorMode) : Action Flow := do
  modifyExec fun e => { e with mode := m }
  return .next

/-! ## Namespaces -/

def switchNamespace (i : Instruction) : Action Flow := do
  let id ← reading fun ns => i.uint ns 0
  if (← get).world.table.contains id then
    modifyExec fun e => { e with active := id }
    return .next
  else fail (.undefinedNamespace id)

def createNamespace (i : Instruction) : Action Flow := do
  let id ← reading fun ns => i.uint ns 0
  setTable ((← get).world.table.create id)
  return .next

def deleteNamespace (i : Instruction) : Action Flow := do
  let id ← reading fun ns => i.uint ns 0
  let s ← get
  setTable (← ofExcept (s.world.table.delete id s.exec.active))
  return .next

def listNamespaces (i : Instruction) : Action Flow := do
  let dest ← ofExcept (i.address 0)
  setCell dest (Bytes.ofWords (← get).world.table.keys)
  return .next

def pruneNamespaces : Action Flow := do
  let s ← get
  setTable (s.world.table.retainOnly s.exec.active)
  return .next

def copyToNamespace (i : Instruction) : Action Flow := do
  let dest ← ofExcept (i.address 1)
  let (v, id) ← reading fun ns => do
    let v ← i.value ns 0
    return (v, ← i.uint ns 2)
  let table := (← get).world.table
  let ns ← ofExcept (table.memory id)
  setTable (← ofExcept (table.setMemory id (ns.insert dest v)))
  return .next

/-! ## Input and printing -/

def readLine (i : Instruction) : Action Flow := do
  let dest ← ofExcept (i.address 0)
  let line ← onInput Input.readLine
  setCell dest (Text.encode line)
  return .next

def readChars (i : Instruction) : Action Flow := do
  let dest ← ofExcept (i.address 1)
  let n ← reading fun ns => i.uint ns 0
  let chars ← onInput (Input.readChars n.toNat)
  setCell dest (Text.encode chars)
  return .next

def runtimeArg (o : Options) (i : Instruction) : Action Flow := do
  let dest ← ofExcept (i.address 1)
  let n ← reading fun ns => i.uint ns 0
  match o.args[n.toNat]? with
  | some arg =>
    setCell dest (Text.encode arg)
    return .next
  | none => fail (.decode (.runtimeArgument n.toNat o.args.length))

def runtimeArgCount (o : Options) (i : Instruction) : Action Flow := do
  let dest ← ofExcept (i.address 0)
  setCell dest (Cell.countByte o.args.length)
  return .next

def dumpMemory : Action Flow := do
  print (← memory).render
  return .next

/-- The text of a value in the form that a number selects: as a list of bytes, as text, as an
unsigned number, as a float, or as a signed number. Other numbers select nothing. -/
def rendering (form : UInt32) (v : Bytes) : Except Fault (Option String) := do
  match form.toNat with
  | 0 => return some (Text.listed v)
  | 1 => return some (Text.lossy v)
  | 2 => return some (toString v.toNat)
  | 3 => return some (← (Cell.float v).mapError .ofReading).toPointText
  | 4 => return some (toString v.toInt)
  | _ => return none

/-- Append a value to the output and print it. The append stays if the value has no text in the form
that is asked for, and nothing is rendered if nothing is listening. -/
def write (i : Instruction) : Action Flow := do
  let form ← ofExcept (i.address 1)
  let v ← reading fun ns => i.value ns 0
  if i.args[2]? ≠ some [1] then emit v
  if (← get).world.sink.isSome then
    match ← ofExcept (rendering form v) with
    | some text => print text
    | none => pure ()
  return .next

/-! ## Files -/

def readFile (i : Instruction) : Action Flow := do
  let dest ← ofExcept (i.address 1)
  let name ← reading fun ns => i.text ns 0
  setCell dest (← onFiles (Provider.read name))
  return .next

def writeFile (o : Options) (i : Instruction) : Action Flow := do
  let (name, v) ← reading fun ns => do
    let name ← i.text ns 0
    return (name, ← i.value ns 1)
  onFiles (Provider.write o.superuser name v)
  return .next

def deleteFile (o : Options) (i : Instruction) : Action Flow := do
  let name ← reading fun ns => i.text ns 0
  onFiles (Provider.delete o.superuser name)
  return .next

def listFiles (i : Instruction) : Action Flow := do
  let dest ← ofExcept (i.address 0)
  let names ← onFiles Provider.list
  setCell dest (names.flatMap fun name => (Text.encode name).framed)
  return .next

def runCommand (o : Options) (i : Instruction) : Action Flow := do
  let dest ← ofExcept (i.address 1)
  let line ← reading fun ns => i.text ns 0
  setCell dest [← onFiles (Provider.runCommand o.superuser line)]
  return .next

def useFiles (bundle : Bool) : Action Flow := do
  if bundle && (← get).world.bundle.isNone then fail (.io .noBundle)
  else
    modifyExec fun e => { e with usesBundle := bundle }
    return .next

/-! ## The program and the output -/

def dumpProgram (i : Instruction) : Action Flow := do
  let dest ← ofExcept (i.address 0)
  setCell dest (← get).exec.program.encode
  return .next

def loadProgram (i : Instruction) : Action Flow := do
  let (v, position) ← reading fun ns => do
    let v ← i.value ns 0
    return (v, ← i.uint ns 1)
  let p ← ofExcept ((Program.decode v).mapError .ofDecode)
  let position ← ofExcept (checkTarget position.toNat p.size)
  modifyExec fun e => { e with program := p }
  return .jump position

def getOutput (i : Instruction) : Action Flow := do
  let dest ← ofExcept (i.address 0)
  setCell dest (← get).exec.output
  return .next

def setOutput (i : Instruction) : Action Flow := do
  let v ← reading fun ns => i.value ns 0
  modifyExec fun e => { e with output := v }
  return .next

/-! ## Time -/

def epochTime (o : Options) (i : Instruction) : Action Flow := do
  let dest ← ofExcept (i.address 0)
  setCell dest (Cell.ofFloat o.clock.epochTime)
  return .next

def localTime (o : Options) (i : Instruction) : Action Flow := do
  let dest ← ofExcept (i.address 0)
  setCell dest (Text.encode o.clock.localTime)
  return .next

/-- The nanoseconds of a number of seconds. A negative zero is no time at all; the longest time has
fewer than `2 ^ 64` seconds. -/
def nanoseconds (seconds : Binary32) : Except SleepError Nat :=
  if seconds.compare? (.zero false) = some .lt then .error .negative
  else
    match seconds.truncate? with
    | none => .error .unrepresentable
    | some n =>
      if UInt64.size ≤ n then .error .unrepresentable
      else
        let scaled := seconds.mantissa * 1000000000
        .ok (if 0 ≤ seconds.scale then scaled * Nat.pow 2 seconds.scale.toNat
          else scaled / Nat.pow 2 (-seconds.scale).toNat)

def sleep (i : Instruction) : Action Flow := do
  let seconds ← reading fun ns => i.float ns 0
  match nanoseconds seconds with
  | .ok n =>
    modifyExec fun e => { e with clock := e.clock + n }
    return .next
  | .error e => fail (.typeDecode (.sleep seconds e))

/-! ## Compilation -/

/-- Store the binary program of a source text; of one with a fault, the part before the fault. -/
def compileSource (i : Instruction) : Action Flow := do
  let dest ← ofExcept (i.address 1)
  let source ← reading fun ns => i.text ns 0
  let c := Source.compile source
  setCell dest c.bytes
  match c.error with
  | some e => fail (.compile e)
  | none => return .next

end CellMachine.Action
