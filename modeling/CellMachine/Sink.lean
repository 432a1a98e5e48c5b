import CellMachine.Panic

/-!
# Print sinks

Where a program's live trace goes. A sink keeps what it was given, text by text. A sink may refuse
one text, which ends the code that printed it by a panic.
-/

namespace CellMachine

structure Sink where
  lines : List String := []
  refuses : Option String := none
  deriving DecidableEq

namespace Sink

def contents (s : Sink) : String := String.join s.lines

def write (s : Sink) (text : String) : Except Panic Sink :=
  if s.refuses = some text then .error (.text ("sink refused " ++ text))
  else .ok { s with lines := s.lines ++ [text] }

end Sink

end CellMachine
