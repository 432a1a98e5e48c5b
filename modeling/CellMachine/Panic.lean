/-!
# Panics

A panic is the abrupt end of whatever code raised it. Nothing of that code runs any more, and the
panic goes through every caller up to a boundary, which reports it as an ordinary error.
-/

namespace CellMachine

inductive Panic where
  | text (message : String)
  | other
  deriving DecidableEq

namespace Panic

def message : Panic → String
  | text m => m
  | other => "unknown panic payload"

def display (p : Panic) : String := "panic: " ++ p.message

inductive Policy where
  | catch
  | logAndCatch
  | propagate
  deriving DecidableEq

instance : Inhabited Policy := ⟨.catch⟩

/-- How code behind a boundary ends: the panic that gets through is the outer error, and the one
that is reported the inner one. -/
def boundary {α : Type} (policy : Policy) : Except Panic α → Except Panic (Except Panic α)
  | .ok a => .ok (.ok a)
  | .error p => if policy = .propagate then .error p else .ok (.error p)

end Panic

end CellMachine
