import CellMachine.Instruction.Json
import CellMachine.Machine.Execution
import CellMachine.Settings

/-!
# Sessions

Doing the task of a command line on a host. Reports go to standard output, warnings and the live
trace of programs to standard error; what programs put out is kept apart from both.
-/

namespace CellMachine

/-- A host that a task is done on, and what has been put out there. -/
structure Session where
  host : Host
  output : Bytes := []

inductive Stop where
  | failed (d : Diagnostic)
  | crashed (p : Panic)
  | unfinished

structure Surroundings where
  paint : Paint
  stdin : Bytes := []
  clock : WallClock := {}
  fuel : Nat

abbrev Job := EStateM Stop Session

namespace Job

def fail {α : Type} (d : Diagnostic) : Job α := throw (.failed d)

def orFail {ε α : Type} (tell : ε → Diagnostic) : Except ε α → Job α
  | .ok a => pure a
  | .error e => fail (tell e)

def readFile (path : String) : Job Bytes := do
  orFail (.ofPath "read" path) ((← get).host.readFile path)

def readText (path : String) : Job String := do
  orFail (.ofPath "read" path) ((← get).host.readText path)

def writeFile (path : String) (data : Bytes) : Job Unit := do
  let host ← orFail (.ofPath "write" path) ((← get).host.writeFile path data)
  modify fun s => { s with host }

def report (line : String) : Job Unit :=
  modify fun s => { s with host := s.host.print (line ++ "\n") }

def warn (line : String) : Job Unit :=
  modify fun s => { s with host := s.host.printError (line ++ "\n") }

def put (bytes : Bytes) : Job Unit := modify fun s => { s with output := s.output ++ bytes }

/-! ## Running programs -/

/-- Take over what an execution has left behind, and report an error that it has met. -/
def finish (file : String) (x : Execution) : Job Unit := do
  let trace := (x.world.sink.map Sink.contents).getD ""
  modify fun s => { s with host := x.world.host.printError trace }
  match x.waitFault with
  | some f => fail (.ofFault f)
  | none =>
    put x.outcome.output
    match x.outcome.errored, x.outcome.error with
    | true, some f =>
      let d : Diagnostic := ⟨s!"'{file}' stopped on an error", []⟩
      fail (d.causedBy f.message)
    | _, _ => pure ()

/-- Run the program in a file, which `start` reads in its binary form. -/
def runFile (start : Options → World → Bytes → Except Fault Machine) (s : Settings)
    (around : Surroundings) (file : String) (args : List String) : Job Unit := do
  let data ← readFile file
  let o := s.options args around.clock
  let m ← orFail .ofFault (start o (s.world (← get).host around.stdin) data)
  match Execution.ofMachine o around.fuel false m with
  | none => throw .unfinished
  | some (.error p) => throw (.crashed p)
  | some (.ok x) => finish file x

/-! ## Source texts -/

/-- Compile a source text. What compiles in front of a fault is written all the same. -/
def compileFile (around : Surroundings) (file : String) (output : Option String) : Job Unit := do
  let c := Source.compile (← readText file)
  let output := output.getD (Path.withExtension file "opc")
  writeFile output c.bytes
  match c.error with
  | some e =>
    fail ((Diagnostic.ofCompile e).causedBy
      s!"{c.size} instruction(s) before the failing line were written to '{output}'")
  | none =>
    let p := around.paint
    let count := p.gray s!"({c.size} instructions)"
    report (p.statusLabel "Compiled" ++ " " ++ p.bold file ++ " " ++ count)

def decompileFile (d : Source.Decompiler) (around : Surroundings) (file : String)
    (output : Option String) : Job Unit := do
  let text ← orFail .ofDecode (d.decompile (← readFile file))
  let output := output.getD (Path.withExtension file "opl")
  writeFile output (Text.encode text)
  report (around.paint.statusLabel "Decompiled" ++ " " ++ output)

def emitFile (file : String) (output : Option String) : Job Unit := do
  let bytes ← orFail .ofCompile (Source.compile (← readText file)).result
  let text := (← orFail .ofDecode (Program.decode bytes)).toJsonText
  match output with
  | some path => writeFile path (Text.encode text)
  | none => put (Text.encode (text ++ "\n"))

/-! ## Bundles -/

/-- The name and the path in an entry `NAME=PATH`. -/
def embeddedFile (entry : String) : Except Diagnostic (String × String) :=
  match Text.splitFirst '=' entry.toList with
  | some (n :: name, p :: path) => .ok (String.ofList (n :: name), String.ofList (p :: path))
  | _ => .error ⟨s!"invalid --file '{entry}' (expected NAME=PATH)", []⟩

/-- Put the file of an entry into a bundle. Of two files with one name the later counts. -/
def embed (around : Surroundings) (b : Bundle) (entry : String) : Job Bundle := do
  let (name, path) ← orFail id (embeddedFile entry)
  if b.files.contains name then
    warn (around.paint.yellow "warning:" ++ s!" '{name}' given twice, keeping the last")
  return { b with files := b.files.insert name (← readFile path) }

def bundleFiles (around : Surroundings) (main : String) (entries : List String) (output : String) :
    Job Unit := do
  let program ← readFile main
  let _ ← orFail .ofDecode (Program.decode program)
  let b ← entries.foldlM (embed around) { main := program }
  writeFile output b.encode
  let p := around.paint
  let count := p.gray s!"({b.files.size} file(s))"
  report (p.statusLabel "Bundled" ++ " " ++ output ++ " " ++ count)

/-! ## Configurations -/

/-- Make a configuration file in the working directory, unless there is one. -/
def initialise (around : Surroundings) : Job Unit := do
  let path := Path.join (← get).host.workingDirectory Config.fileName
  if (← get).host.isPresent path then fail ⟨s!"{path} already exists, not overwriting", []⟩
  writeFile path (Text.encode Config.template)
  report (around.paint.statusLabel "Created" ++ " " ++ path)

end Job

def Task.perform (t : Task) (s : Settings) (around : Surroundings) : Job Unit :=
  match t with
  | run file args => Job.runFile (fun o w data => Execution.start o w data) s around file args
  | exec file args => Job.runFile Execution.startBundle s around file args
  | compile file output => Job.compileFile around file output
  | decompile file assume noStrings output =>
    Job.decompileFile
      { assume := assume.getD s.decompiler.assume
        tryStrings := s.decompiler.tryStrings && !noStrings }
      around file output
  | emit file output => Job.emitFile file output
  | bundle main files output => Job.bundleFiles around main files output
  | init => Job.initialise around

/-- Do the task of an invocation under the configuration that counts. -/
def Invocation.perform (i : Invocation) (config : Config) (around : Surroundings) : Job Unit :=
  i.task.perform (.resolve config i.globals) around

/-- The paths that a task reads and writes itself; a program that it runs may use others. -/
def Task.paths : Task → List String
  | run file _ | exec file _ => [file]
  | compile file output => [file, output.getD (Path.withExtension file "opc")]
  | decompile file _ _ output => [file, output.getD (Path.withExtension file "opl")]
  | emit file output => file :: output.toList
  | bundle main entries output =>
    main :: output :: entries.filterMap fun entry => (Job.embeddedFile entry).toOption.map (·.2)
  | init => [Config.fileName]

def Task.runsProgram : Task → Bool
  | run .. | exec .. => true
  | _ => false

/-- The filter for log messages at a verbosity. -/
def logLevel : (verbosity : Nat) → String
  | 0 => "warn"
  | 1 => "info"
  | 2 => "debug"
  | _ => "trace"

end CellMachine
