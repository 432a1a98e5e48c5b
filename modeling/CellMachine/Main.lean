import CellMachine.CommandLine.Usage
import CellMachine.Session
import Std.Time.Format
import Std.Time.Zoned

/-!
# The program

The part that touches the system. The files that a task can reach are read into a `Host`, the task
is done on that, and what has changed is written back. A program that is run can reach the directory
that its files are in and those of plugins; its standard input is read to the end before it starts,
unless it is a terminal.
-/

namespace CellMachine.Main

def pathOf (p : Place) : String := "/" ++ "/".intercalate p

def placeOf (path : String) : Place := (Path.segments path).filter (· != "")

def fetch (h : Host) (p : Place) : IO Host := do
  try
    let real ← IO.FS.realPath (pathOf p)
    if ← real.isDir then return { h with nodes := h.nodes.insert p .directory }
    let data ← IO.FS.readBinFile real
    return { h with nodes := h.nodes.insert p (.file data.toList) }
  catch _ => return h

/-- Read what a path leads to into the host, with the directories on the way. -/
def fetchPath (h : Host) (path : String) : IO Host := do
  let mut host := h
  let mut place := h.start path
  for n in List.range place.length do
    host ← fetch host (place.take n)
  for segment in Path.segments path do
    host ← fetch host place
    if segment = ".." then place := place.dropLast
    else if segment != "" && segment != "." then place := place ++ [segment]
  fetch host place

/-- Read a directory into the host with all that is in it, at most `depth` directories deep. -/
def fetchTree : (depth : Nat) → Host → Place → IO Host
  | 0, h, _ => return h
  | depth + 1, h, p => do
    let names ← try
        let real ← IO.FS.realPath (pathOf p)
        if ← real.isDir then pure ((← real.readDir).toList.map fun e => e.fileName) else pure []
      catch _ => pure []
    names.foldlM (fun h name => do fetchTree depth (← fetch h (p ++ [name])) (p ++ [name])) h

def store (old new : Host) : IO Unit := do
  for (p, node) in new.nodes.toList do
    if old.nodes.get? p ≠ some node then
      match node with
      | .directory => IO.FS.createDirAll (pathOf p)
      | .file data => IO.FS.writeBinFile (pathOf p) ⟨data.toArray⟩
  for (p, _) in old.nodes.toList do
    if !new.nodes.contains p then IO.FS.removeFile (pathOf p)

def clock : IO WallClock := do
  let now ← Std.Time.Timestamp.now
  let time ← Std.Time.PlainDateTime.now
  let day := Paint.alignedRight 2 (time.format "d")
  let milliseconds := now.toMillisecondsSinceUnixEpoch.toInt.toNat
  return {
    epochTime := .ofRatio false milliseconds 1000
    localTime := time.format "EEE MMM " ++ day ++ time.format " HH:mm:ss uuuu" }

/-- The host that a task finds, and the configuration that counts there. -/
def prepare (i : Invocation) (home : Option String) : IO (Host × Except ConfigError Config) := do
  let cwd := placeOf (← IO.currentDir).toString
  let start : Host := { cwd }
  let configs := ((Path.ancestors start.workingDirectory).map (Path.join · Config.fileName)) ++
    (home.map Config.userPath).toList
  let host ← (configs ++ i.task.paths).foldlM fetchPath start
  match Config.discover host home with
  | .error e => return (host, .error e)
  | .ok (_, c) =>
    if !i.task.runsProgram then return (host, .ok c)
    let s := Settings.resolve c i.globals
    let host ← (s.root :: s.pluginDirs).foldlM (fun h dir => do
      let h ← fetchPath h dir
      match h.walk (h.start dir) (Path.segments dir) with
      | .ok p => fetchTree 64 h p
      | .error _ => return h) host
    return (host, .ok c)

def perform (i : Invocation) : IO UInt32 := do
  let home := (← IO.getEnv "HOME").filter fun path => !path.isEmpty
  let paint : Paint := ⟨(← IO.getEnv "NO_COLOR").isNone⟩
  let (input, out, err) := (← IO.getStdin, ← IO.getStdout, ← IO.getStderr)
  let (host, config) ← prepare i home
  let stdin ←
    if i.task.runsProgram && !(← input.isTty) then pure (← input.readBinToEnd).toList
    else pure []
  let around : Surroundings := { paint, stdin, clock := ← clock, fuel := 1000000000000000000 }
  let job : Job Unit := do i.perform (← Job.orFail ConfigError.diagnostic config) around
  let (failure, s) : Option Stop × Session := match job.run { host } with
    | .ok () s => (none, s)
    | .error stop s => (some stop, s)
  store host s.host
  out.write ⟨(s.output ++ s.host.stdout).toArray⟩
  out.flush
  err.write ⟨s.host.stderr.toArray⟩
  match failure with
  | none => return 0
  | some (.failed d) =>
    err.putStrLn (d.render paint)
    return 1
  | some (.crashed p) =>
    err.putStrLn p.display
    return 101
  | some .unfinished =>
    err.putStrLn "the program did not come to an end"
    return 1

end CellMachine.Main

def main (args : List String) : IO UInt32 := do
  match CellMachine.CommandLine.parse args with
  | .ok i => CellMachine.Main.perform i
  | .error e =>
    if let some text := e.answer then IO.println text
    if let some text := e.complaint then IO.eprintln text
    return e.status.toUInt32
