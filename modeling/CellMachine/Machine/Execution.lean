import CellMachine.Machine.Threads

/-!
# Executions

Running a program to its end: the main program first, which settles the output and the error, and
then whatever threads it has left behind.
-/

namespace CellMachine

/-- What is left of an execution when all its threads are done. -/
structure Execution where
  outcome : Outcome
  world : World
  -- What waiting for the detached threads fails with.
  waitFault : Option Fault

namespace Execution

/-- Run a machine for at most `fuel` turns; without an answer if these are not enough. With `stop`,
all threads are told to stop when the main program is done. A panic of the main program is the end
of the execution. -/
def ofMachine (o : Options) (fuel : Nat) (stop : Bool) (m : Machine) :
    Option (Except Panic Execution) :=
  let m := m.runUntil Machine.mainEnded o fuel
  match m.ending? 0 with
  | none => none
  | some (.error p, _) => some (.error p)
  | some (.ok outcome, _) =>
    let m := if stop then { m with world := { m.world with stopped := true } } else m
    let m := m.runUntil Machine.allEnded o fuel
    if m.allEnded then some (.ok { outcome, world := m.world, waitFault := m.waitFault }) else none

def start (o : Options) (world : World) (binary : Bytes) (active : UInt32 := 0) :
    Except Fault Machine :=
  match Program.decode binary with
  | .ok p => .ok (Machine.start o world p active)
  | .error e => .error (.ofDecode e)

/-- Start from a bundle, whose files become the bundle's files of the execution. -/
def startBundle (o : Options) (world : World) (bundle : Bytes) : Except Fault Machine :=
  match Bundle.decode bundle with
  | .ok b => start o { world with bundle := some (.memory b.files false) } b.main
  | .error e => .error (.ofDecode e)

def read (x : Execution) (id address : UInt32) : Option Bytes :=
  (x.world.table.get? id).bind fun slot => slot.memory.get? address

def inspect (x : Execution) : String :=
  let error := match x.outcome.error with
    | some f => "Some(" ++ f.inspect ++ ")"
    | none => "None"
  "Execution \x7b output: " ++ Text.listed x.outcome.output ++ ", errored: " ++
    (if x.outcome.errored then "true" else "false") ++ ", error: " ++ error ++ ", .. \x7d"

end Execution

end CellMachine
