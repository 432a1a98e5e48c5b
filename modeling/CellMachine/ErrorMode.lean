/-!
# Error modes

What an execution does about an instruction that fails.
-/

namespace CellMachine

inductive ErrorMode where
  | displayStop  -- mark the output, report, and halt
  | display  -- mark the output, report, and go on
  | stop  -- halt without a word
  | none  -- go on without a word
  deriving DecidableEq

namespace ErrorMode

instance : Inhabited ErrorMode := ⟨displayStop⟩

def name : ErrorMode → String
  | displayStop => "ds"
  | display => "d"
  | stop => "s"
  | none => "none"

def displays (m : ErrorMode) : Bool := m = displayStop || m = display

def halts (m : ErrorMode) : Bool := m = displayStop || m = stop

/-- Whether an error counts as one in the outcome. -/
def counts (m : ErrorMode) : Bool := m ≠ none

def ofName? : String → Option ErrorMode
  | "ds" => some displayStop
  | "d" => some display
  | "s" => some stop
  | "none" => some none
  | _ => Option.none

def parse (text : String) : Except String ErrorMode :=
  match text with
  | "ds" | "display-stop" => .ok displayStop
  | "d" | "display" => .ok display
  | "s" | "stop" => .ok stop
  | "none" => .ok none
  | other => .error s!"unknown error mode '{other}' (expected ds, d, s or none)"

end ErrorMode

end CellMachine
