import CellMachine.CommandLine
import CellMachine.Config
import CellMachine.Machine.World

/-!
# Settings

A configuration together with the options of the command line, which win. Directories for plugins
add up.
-/

namespace CellMachine

structure Settings where
  mode : ErrorMode
  superuser : Bool
  limit : Option Nat
  pluginDirs : List String
  restricted : Bool
  root : String
  quiet : Bool
  decompiler : Source.Decompiler

namespace Settings

/-- The settings under a configuration and the options of the command line. -/
def resolve (c : Config) (g : Globals) : Settings :=
  { mode := (g.mode <|> c.mode).getD default
    superuser := g.superuser || c.superuser
    limit := g.limit <|> c.limit
    pluginDirs := c.pluginDirs ++ g.pluginDirs
    restricted := g.restricted || c.restricted
    root := (g.root <|> c.root).getD "."
    quiet := g.quiet
    decompiler := c.decompiler }

/-- What programs with the given arguments are granted at the given time. -/
def options (s : Settings) (args : List String) (clock : WallClock) : Options :=
  { mode := s.mode, superuser := s.superuser, args, limit := s.limit, pluginDirs := s.pluginDirs,
    clock }

/-- The world that programs start in, on a host with the given standard input. -/
def world (s : Settings) (h : Host) (stdin : Bytes) : World :=
  { host := h
    primary := .directory { root := s.root, restricted := s.restricted }
    input := .stream stdin
    sink := if s.quiet then none else some {} }

end Settings

end CellMachine
