import CellMachine.CommandLine

/-!
# Usage

What a user is told about the arguments that the program takes, and about arguments that it does
not take.
-/

namespace CellMachine.CommandLine

/-- The wording of a usage error. A request for help is answered elsewhere. -/
def UsageError.message : UsageError → String
  | .help | .version | .noArguments => ""
  | .missingCommand => "a command is missing"
  | .unknownCommand word => s!"there is no command '{word}'"
  | .unknownArgument argument => s!"unexpected argument '{argument}'"
  | .missingArgument what => s!"the command needs '{what}'"
  | .missingValue what => s!"'{what}' needs a value"
  | .badValue o value => s!"'{value}' is no value of '--{o.long}'"
  | .repeated o => s!"'--{o.long}' can be given only once"
  | .unexpectedValue o => s!"'--{o.long}' takes no value"

def versionText : String := "opl 0.5.0"

def helpText : String :=
  "\n".intercalate
    ["Compile, inspect and run OPL programs",
      "",
      "Usage: opl [OPTIONS] <COMMAND>",
      "",
      "Commands:",
      "  run <FILE> [ARGS]...       Execute a binary program and print its output buffer",
      "  compile <FILE>             Compile source text to a binary program",
      "  decompile <FILE>           Reconstruct source text from a binary program",
      "  emit <FILE>                Compile source and print the decoded program as JSON",
      "  bundle <MAIN> -o <OUTPUT>  Package a program and data files into an executable bundle",
      "  exec <FILE> [ARGS]...      Execute a bundle",
      "  init                       Create an opl.toml config file in the current directory",
      "",
      "Options:",
      "      --error-mode <MODE>  Error policy: ds, d, s or none",
      "      --sudo               Run as superuser (bypass restricted-mode checks)",
      "      --restricted         Refuse file writes, deletes, commands, imports and plugins",
      "  -q, --quiet              Do not print the live trace of write opcodes",
      "      --root <DIR>         Directory the file opcodes are rooted at",
      "      --max-steps <N>      Stop after this many instructions per thread",
      "      --plugin-dir <DIR>   Directory searched for extension plugins (repeatable)",
      "  -v, --verbose...         Raise log verbosity (-v info, -vv debug, -vvv trace)",
      "  -o, --output <PATH>      Output path of compile, decompile, emit and bundle",
      "      --assume <TYPE>      Rendering for non-printable arguments of decompile: b, i, f or s",
      "      --no-strings         Never render arguments of decompile as strings",
      "      --file <NAME=PATH>   Embedded file of bundle (repeatable)",
      "  -h, --help               Print help",
      "  -V, --version            Print version"]

def UsageError.answer : UsageError → Option String
  | .help => some helpText
  | .version => some versionText
  | _ => none

def UsageError.complaint (e : UsageError) : Option String :=
  match e with
  | .help | .version => none
  | .noArguments => some helpText
  | e => some s!"error: {e.message}"

end CellMachine.CommandLine
