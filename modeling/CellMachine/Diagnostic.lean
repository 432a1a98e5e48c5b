import CellMachine.Fault
import CellMachine.Paint

/-!
# Diagnostics

What a user is told about a failure: what could not be done, and why, from the outermost cause to
the innermost.
-/

namespace CellMachine

structure Diagnostic where
  primary : String
  causes : List String := []
  deriving DecidableEq

namespace Diagnostic

def causedBy (d : Diagnostic) (cause : String) : Diagnostic :=
  { d with causes := d.causes ++ [cause] }

/-- Say what could not be done on account of this failure, which becomes its first cause. -/
def context (d : Diagnostic) (primary : String) : Diagnostic := ⟨primary, d.primary :: d.causes⟩

def message (d : Diagnostic) : String :=
  d.primary ++ String.join (d.causes.map fun cause => "\n  caused by: " ++ cause)

def plain (d : Diagnostic) : String := "error: " ++ d.message

def render (d : Diagnostic) (p : Paint) : String := p.red "error:" ++ " " ++ d.message

/-! ## Causes that are told apart -/

def ofIo (e : IoError) : Diagnostic := ⟨e.text, []⟩

def ofPath (action path : String) (e : IoError) : Diagnostic :=
  ⟨s!"cannot {action} '{path}'", [e.text]⟩

def ofDecode (e : DecodeError) : Diagnostic := ⟨"malformed program", [e.message]⟩

def ofCompile (e : Source.CompileError) : Diagnostic :=
  ⟨"compilation failed", [e.message, e.cause.message]⟩

def ofFault (f : Fault) : Diagnostic := ⟨f.message, []⟩

end Diagnostic

end CellMachine
