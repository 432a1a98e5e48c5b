import CellMachine.Extension
import CellMachine.Files.Host

/-!
# Plugins

A plugin is a handler whose hooks report a status number, zero for success. It sees memory through
a narrow window: a read gives at most as many bytes as the plugin has room for, with the full length
of the value, and a failed access gives no reason.

Plugins come from shared libraries. What a library is and what it exports is for the host to say: a
`Loader` is part of what it grants to an execution.
-/

namespace CellMachine

abbrev PluginHook := Call → Act Int

structure Plugin where
  name : String
  claimed : List UInt32
  handle : PluginHook
  before : Option PluginHook := none
  after : Option PluginHook := none

/-- What a shared library exports of the plugin interface: the version of the interface that it was
built for, the opcodes that it claims, and the hooks. -/
structure Library where
  version : Option UInt32 := none
  claimed : Option (List UInt32) := none
  handle : Option PluginHook := none
  before : Option PluginHook := none
  after : Option PluginHook := none

/-- What comes of opening the file at a path as a shared library: the library, or the reason why
there is none. -/
abbrev Loader := Host → String → Except String Library

namespace Plugin

def abiVersion : UInt32 := 1

def required {α : Type} (path symbol : String) (export? : Option α) : Except ExtensionError α :=
  match export? with
  | some a => .ok a
  | none => .error (.missingSymbol path symbol)

/-- The plugin with a name that the file at a path holds. The version counts only when everything is
there that a plugin must have. -/
def load (loader : Loader) (host : Host) (name path : String) : Except ExtensionError Plugin := do
  let library ← (loader host path).mapError (.load path)
  let version ← required path "opl_plugin_abi_version" library.version
  let claimed ← required path "opl_plugin_claimed_opcodes" library.claimed
  let handle ← required path "opl_plugin_handle" library.handle
  if version ≠ abiVersion then throw (.abiMismatch path version abiVersion)
  return { name, claimed, handle, before := library.before, after := library.after }

/-- At most `room` bytes of a cell, and its full length. -/
def peek (address : UInt32) (room : Nat) : Act (Option (Bytes × Nat)) :=
  .read address fun
    | .ok value => pure (some (value.take room, value.length))
    | .error _ => pure none

def poke (address : UInt32) (value : Bytes) : Act Int :=
  .write address value fun
    | .ok _ => pure 0
    | .error _ => pure 1

def run (name : String) (hook : PluginHook) (call : Call) : Act Unit := do
  let status ← hook call
  if status = 0 then pure ()
  else .refuse s!"plugin {name} failed on opcode {call.opcode.toNat} with status {status}"

/-- The handler of a plugin. A hook that is not there does nothing. -/
def handler (p : Plugin) : Handler :=
  let optional (hook : Option PluginHook) (call : Call) : Act Unit :=
    match hook with
    | some hook => run p.name hook call
    | none => pure ()
  { name := p.name
    claimed := p.claimed
    before := optional p.before
    after := optional p.after
    handle := run p.name p.handle }

/-- The path of a plugin's library in the first of the directories that has it. A name with a path
separator or two dots in a row has none. -/
def find? (host : Host) (name : String) (dirs : List String) : Option String :=
  let cs := name.toList
  let twoDots := (cs.zip (cs.drop 1)).contains ('.', '.')
  if name.isEmpty || cs.contains '/' || cs.contains '\\' || twoDots then none
  else (dirs.map fun dir => Path.join dir ("lib" ++ name ++ ".so")).find? host.isFile

end Plugin

end CellMachine
