import CellMachine.Diagnostic
import CellMachine.ErrorMode
import CellMachine.Files.Host
import CellMachine.Source.Decompile
import CellMachine.Toml.Document

/-!
# Configuration files

Defaults for executions and for decompilation, which a user writes down in a file in TOML. The file
next above the working directory counts, or else the one of the user.
-/

namespace CellMachine

structure Config where
  mode : Option ErrorMode := none
  superuser : Bool := false
  restricted : Bool := false
  root : Option String := none
  limit : Option Nat := none
  pluginDirs : List String := []
  decompiler : Source.Decompiler := {}

inductive ConfigError where
  | read (path : String) (cause : IoError)
  | malformed (path : String)
  deriving DecidableEq

def ConfigError.diagnostic : ConfigError → Diagnostic
  | .read path cause => .ofPath "read" path cause
  | .malformed path => ⟨s!"invalid toml in '{path}'", ["not a configuration"]⟩

namespace Config

instance : Inhabited Config := ⟨{}⟩

/-! ## Reading -/

def field {α : Type} (read : Toml → Option α) (default : α) : Option Toml → Option α
  | none => some default
  | some value => read value

def readSection {α : Type} (names : List String) (read : List (Option Toml) → Option α)
    (default : α) : Option Toml → Option α :=
  field (fun value => (value.fields? names).bind read) default

def withRuntime (c : Config) : List (Option Toml) → Option Config
  | [mode, superuser, restricted, root, limit, pluginDirs] => do
    let mode ← field (fun v => (v.alternative?.bind ErrorMode.ofName?).map some) c.mode mode
    let superuser ← field Toml.boolean? c.superuser superuser
    let restricted ← field Toml.boolean? c.restricted restricted
    let root ← field (fun v => v.string?.map some) c.root root
    let limit ← field (fun v => v.natural?.map some) c.limit limit
    let pluginDirs ← field Toml.strings? c.pluginDirs pluginDirs
    return { c with mode, superuser, restricted, root, limit, pluginDirs }
  | _ => none

def withDecompiler (c : Config) : List (Option Toml) → Option Config
  | [assume, tryStrings] => do
    let assume ←
      field (fun v => v.alternative?.bind Source.AssumedType.ofName?) c.decompiler.assume assume
    let tryStrings ← field Toml.boolean? c.decompiler.tryStrings tryStrings
    return { c with decompiler := { assume, tryStrings } }
  | _ => none

/-- The configuration that a table lays down. Keys that say nothing to it are skipped. -/
def ofToml? (t : Toml) : Option Config := do
  match ← t.fields? ["runtime", "decompiler"] with
  | [runtime, decompiler] =>
    let c : Config := {}
    let c ← readSection
      ["error_mode", "superuser", "restricted", "root", "max_steps", "plugin_dirs"]
      c.withRuntime c runtime
    readSection ["assume", "try_strings"] c.withDecompiler c decompiler
  | _ => none

def parse? (text : String) : Option Config := (Toml.parse? text).bind ofToml?

/-! ## Finding -/

def fileName : String := "opl.toml"

/-- The path of the configuration file of a user with the given home directory. -/
def userPath (home : String) : String :=
  Path.join (Path.join (Path.join home ".config") "opl") fileName

def find? (h : Host) (home : Option String) : Option String :=
  ((Path.ancestors h.workingDirectory).map fun dir => Path.join dir fileName).find? h.isFile
  <|> (home.map userPath).filter h.isFile

def anchored (c : Config) (base : String) : Config :=
  { c with root := c.root.map (Path.join base), pluginDirs := c.pluginDirs.map (Path.join base) }

/-- The configuration in a file. Relative paths in it start at the directory of the file. -/
def load (h : Host) (path : String) : Except ConfigError Config := do
  let text ← (h.readText path).mapError (.read path)
  match parse? text with
  | none => throw (.malformed path)
  | some c =>
    match Path.parent? path with
    | some base => return c.anchored base
    | none => return c

/-- The configuration that counts, and the file that it is in, if there is one. -/
def discover (h : Host) (home : Option String) : Except ConfigError (Option String × Config) := do
  match find? h home with
  | some path => return (some path, ← load h path)
  | none => return (none, {})

/-! ## Writing -/

def template : String :=
  String.join (List.map (· ++ "\n")
    ["# OPL configuration",
      "",
      "[runtime]",
      "# Error policy: \"ds\" (display and stop), \"d\" (display), \"s\" (stop), \"none\"",
      "error_mode = \"ds\"",
      "superuser = false",
      "restricted = false",
      "# root = \".\"",
      "# max_steps = 1000000",
      "# Directories searched for extension plugins; empty disables plugins",
      "plugin_dirs = []",
      "",
      "[decompiler]",
      "# Rendering for non-printable arguments: \"b\", \"i\", \"f\" or \"s\"",
      "assume = \"b\"",
      "try_strings = true"])

end Config

end CellMachine
