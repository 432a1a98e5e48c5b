import CellMachine.Bytes
import CellMachine.Files.Path
import CellMachine.Files.ProviderError
import CellMachine.OrderedMap
import CellMachine.Text.Utf8

/-!
# The host system

A tree of directories and files, a working directory, two output streams and the will to give
threads: what programs and commands can see of the system that they run on. There are no links and
no permissions.

A *place* is a list of names from the root directory down. Paths are walked as the system walks
them: every segment but the last has to be a directory, also a dot or an empty one behind it, so
that a trailing slash after a file is refused.
-/

namespace CellMachine

inductive Node where
  | directory
  | file (data : Bytes)
  deriving DecidableEq

abbrev Place := List String

structure Host where
  -- The directories and files; the root directory is not listed.
  nodes : OrderedMap Place Node := ∅
  cwd : Place := []
  stdout : Bytes := []
  stderr : Bytes := []
  -- Why the system gives no threads, if it gives none.
  refusal : Option String := none

namespace Host

instance : Inhabited Host := ⟨{}⟩

/-! ## Looking -/

def node? (h : Host) (p : Place) : Option Node :=
  if p.isEmpty then some .directory else h.nodes.get? p

def workingDirectory (h : Host) : String := "/" ++ "/".intercalate h.cwd

def start (h : Host) (path : String) : Place := if Path.isAbsolute path then [] else h.cwd

def step (h : Host) (p : Place) (segment : String) : Except IoError Place :=
  match h.node? p with
  | none => .error .noEntry
  | some (.file _) => .error .notDirectory
  | some .directory =>
    if segment = "" || segment = "." then .ok p
    else if segment = ".." then .ok p.dropLast
    else .ok (p ++ [segment])

def walk (h : Host) (p : Place) (segs : List String) : Except IoError Place := segs.foldlM h.step p

def lookup (h : Host) (path : String) : Except IoError Node := do
  if path.isEmpty then throw .noEntry
  let p ← h.walk (h.start path) (Path.segments path)
  match h.node? p with
  | some n => return n
  | none => throw .noEntry

def isFile (h : Host) (path : String) : Bool :=
  match h.lookup path with
  | .ok (.file _) => true
  | _ => false

def isDirectory (h : Host) (path : String) : Bool :=
  match h.lookup path with
  | .ok .directory => true
  | _ => false

def isPresent (h : Host) (path : String) : Bool := (h.lookup path).toBool

def readFile (h : Host) (path : String) : Except IoError Bytes := do
  match ← h.lookup path with
  | .file data => return data
  | .directory => throw .isDirectory

def readText (h : Host) (path : String) : Except IoError String := do
  match Text.decode? (← h.readFile path) with
  | some s => return s
  | none => throw .notText

def listFiles (h : Host) (path : String) : Except IoError (List String) := do
  if path.isEmpty then throw .noEntry
  let p ← h.walk (h.start path) (Path.segments path)
  match h.node? p with
  | none => throw .noEntry
  | some (.file _) => throw .notDirectory
  | some .directory =>
    return h.nodes.toList.filterMap fun (q, n) =>
      match n with
      | .file _ => if q.dropLast = p then q.getLast? else none
      | .directory => none

/-! ## Changing -/

structure Target where
  directory : Place
  name : String
  slash : Bool

def target (h : Host) (path : String) : Except IoError Target := do
  if path.isEmpty then throw .noEntry
  let segs := Path.segments path
  let kept := (segs.reverse.dropWhile (· == "")).reverse
  let directory ← h.walk (h.start path) kept.dropLast
  -- The directory itself has to be one.
  let directory ← h.step directory "."
  return { directory, name := kept.getLastD ".", slash := kept.length < segs.length }

/-- The place that a target names, unless it ends in dots. -/
def Target.place? (t : Target) : Option Place :=
  if t.name = "." || t.name = ".." then none else some (t.directory ++ [t.name])

def writeFile (h : Host) (path : String) (data : Bytes) : Except IoError Host := do
  let t ← h.target path
  match t.place? with
  | none => throw .isDirectory
  | some p =>
    if t.slash then throw .isDirectory
    else
      match h.node? p with
      | some .directory => throw .isDirectory
      | _ => return { h with nodes := h.nodes.insert p (.file data) }

def removeFile (h : Host) (path : String) : Except IoError Host := do
  let t ← h.target path
  match t.place? with
  | none => throw .isDirectory
  | some p =>
    match h.node? p with
    | none => throw .noEntry
    | some .directory => throw .isDirectory
    | some (.file _) =>
      if t.slash then throw .notDirectory else return { h with nodes := h.nodes.erase p }

def makeDirectory (h : Host) (path : String) : Except IoError Host := do
  let t ← h.target path
  match t.place? with
  | none => throw .alreadyExists
  | some p =>
    if (h.node? p).isSome then throw .alreadyExists
    else return { h with nodes := h.nodes.insert p .directory }

/-- Make a directory and those above it; `fuel` bounds their number. What was made before a failure
stays. -/
def makeDirectoriesUpTo : (fuel : Nat) → (path : String) → EStateM IoError Host Unit
  | 0, _ => throw .noEntry
  | fuel + 1, path => do
    if path.isEmpty then return
    let h ← get
    match h.makeDirectory path with
    | .ok h => set h
    | .error e =>
      if e.kind = .notFound then
        match Path.parent? path with
        | none => throw e
        | some up =>
          makeDirectoriesUpTo fuel up
          let h ← get
          match h.makeDirectory path with
          | .ok h => set h
          | .error e => if h.isDirectory path then return else throw e
      else if h.isDirectory path then return
      else throw e

def makeDirectories (path : String) : EStateM IoError Host Unit :=
  makeDirectoriesUpTo (path.length + 1) path

def print (h : Host) (text : String) : Host := { h with stdout := h.stdout ++ Text.encode text }

def printError (h : Host) (text : String) : Host :=
  { h with stderr := h.stderr ++ Text.encode text }

end Host

end CellMachine
