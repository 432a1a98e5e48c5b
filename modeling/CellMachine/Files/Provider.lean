import CellMachine.Bundle
import CellMachine.Files.Command
import CellMachine.Files.Host

/-!
# File providers

What the file instructions of a program work on: named byte strings in memory, or the files in one
directory of the host. A restricted provider changes nothing unless the caller is superuser.

Reads, writes and so on are actions on a `Storage`, which is a provider together with the host
system. A failed action on files in memory leaves the storage as it was; a failed write to the host
may leave directories that it made.
-/

namespace CellMachine

/-- A directory of the host whose files a program may use. -/
structure HostDirectory where
  root : String
  -- Whether changes are for superusers only.
  restricted : Bool := false
  allowsCommands : Bool := false
  deriving DecidableEq

inductive Provider where
  | memory (files : FileMap) (restricted : Bool)
  | directory (d : HostDirectory)
  deriving DecidableEq

structure Storage where
  provider : Provider
  host : Host

abbrev FileAction := EStateM ProviderError Storage

namespace HostDirectory

/-- The path of a file of the directory. Only names that stay inside it have one. -/
def resolve (d : HostDirectory) (action name : String) : Except ProviderError String :=
  if Path.staysInside name then .ok (Path.join d.root name)
  else .error (.permissionDenied (.outside action name d.root))

end HostDirectory

namespace Provider

def isRestricted : Provider → Bool
  | memory _ restricted => restricted
  | directory d => d.restricted

def check {α : Type} : Except ProviderError α → FileAction α
  | .ok a => pure a
  | .error e => throw e

def change (target : String) : Except IoError Host → FileAction Unit
  | .ok h => modify fun s => { s with host := h }
  | .error e => throw (.ofIo target e)

def read (name : String) : FileAction Bytes := do
  let s ← get
  match s.provider with
  | memory files _ =>
    match files.get? name with
    | some data => return data
    | none => throw (.notFound name)
  | directory d =>
    let path ← check (d.resolve "read" name)
    match s.host.readFile path with
    | .ok data => return data
    | .error e => throw (.ofIo name e)

/-- Create a file or replace it. In a host directory the directories above it are made. -/
def write (superuser : Bool) (name : String) (data : Bytes) : FileAction Unit := do
  let s ← get
  check (checkAccess s.provider.isRestricted superuser "write" name)
  match s.provider with
  | memory files restricted =>
    set { s with provider := memory (files.insert name data) restricted }
  | directory d =>
    let path ← check (d.resolve "write" name)
    match Path.parent? path with
    | none => pure ()
    | some up =>
      match (Host.makeDirectories up).run s.host with
      | .ok _ h => set { s with host := h }
      | .error e h =>
        set { s with host := h }
        throw (.ofIo name e)
    change name ((← get).host.writeFile path data)

def delete (superuser : Bool) (name : String) : FileAction Unit := do
  let s ← get
  check (checkAccess s.provider.isRestricted superuser "delete" name)
  match s.provider with
  | memory files restricted =>
    if files.contains name then set { s with provider := memory (files.erase name) restricted }
    else throw (.notFound name)
  | directory d =>
    let path ← check (d.resolve "delete" name)
    change name (s.host.removeFile path)

/-- The names of the files in ascending order; of a host directory, those right in it. -/
def list : FileAction (List String) := do
  let s ← get
  match s.provider with
  | memory files _ => return files.keys
  | directory d =>
    match s.host.listFiles d.root with
    | .ok names => return names
    | .error e => throw (.ofIo d.root e)

/-- Run a command in a host directory, if it lets commands be run. The exit status of a command that
was killed is 255. -/
def runCommand (superuser : Bool) (line : String) : FileAction UInt8 := do
  let s ← get
  match s.provider with
  | memory _ _ => throw (.unsupported "run_command")
  | directory d =>
    if !d.allowsCommands then throw (.unsupported "run_command")
    check (checkAccess d.restricted superuser "run command" line)
    let cwd ← match s.host.lookup d.root with
      | .ok .directory => check ((s.host.walk (s.host.start d.root) (Path.segments d.root)).mapError
          fun e => .ofIo line e)
      | .ok (.file _) => throw (.ofIo line .notDirectory)
      | .error e => throw (.ofIo line e)
    let (status, h) := Command.run { s.host with cwd } line
    set { s with host := { h with cwd := s.host.cwd } }
    return match status with
      | some n => UInt8.ofNat n
      | none => 255

end Provider

end CellMachine
