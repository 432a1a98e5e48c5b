import CellMachine.Machine.Launch

/-!
# Turns

An executor runs turn by turn. A turn is one whole instruction with the calls of the bound extension
around it; an instruction that waits for another executor is left by one turn and taken up again by
`receive` or `receiveJoined`. The error mode decides what a fault does, and every fault that a turn
meets is handled within it.
-/

namespace CellMachine

/-- What the output shows in place of an error. -/
def errorMarker : Bytes := [0, 0, 0, 1]

namespace Executor

def isLive (e : Executor) : Bool := e.running && e.ip < e.program.size

/-- Whether no further instruction may be started. -/
def isExhausted (e : Executor) (o : Options) : Bool :=
  match o.limit with
  | some n => n ≤ e.steps
  | none => false

def follow (e : Executor) : Flow → Executor
  | .next => { e with ip := e.ip + 1 }
  | .jump position => { e with ip := position }
  | .halt => { e with running := false }

/-- The executor after a fault. Running out of instructions halts it in every mode. -/
def afterFault (e : Executor) (f : Fault) : Executor :=
  let terminal := match f with
    | .instructionLimitExceeded _ => true
    | _ => false
  let e' := { e with errored := e.errored || e.mode.counts, lastError := some f }
  if e.mode.halts || terminal then { e' with running := false } else { e' with ip := e.ip + 1 }

def diagnostic (e : Executor) (f : Fault) : String :=
  let code := match e.program.get? e.ip with
    | some i => i.describe
    | none => ""
  s!"ERROR: {f.message} LINE: {e.ip} CODE: {code}"

end Executor

namespace Guarded

/-- Treat a fault as the error mode says. -/
def handle (f : Fault) : Guarded Unit := do
  let e := (← get).exec
  if e.mode.displays then
    modify fun s => { s with exec := { s.exec with output := s.exec.output ++ errorMarker } }
    print (e.diagnostic f)
  modify fun s => { s with exec := s.exec.afterFault f }

/-- Run an action and handle its fault, for which there is no value. -/
def attempt {α : Type} (a : Action α) : Guarded (Option α) := fun s =>
  match a s with
  | .ok value s => .ok (some value) s
  | .error (.panic p) s => .error p s
  | .error (.fault f) s =>
    match handle f s with
    | .ok _ s => .ok none s
    | .error p s => .error p s

end Guarded

inductive Turn where
  | ready
  | calling (i : Instruction) (callee : Executor) (reception : Reception)
  | joining (i : Instruction) (child : Executor)
  | done

namespace Action

def finish (i : Instruction) (f : Flow) : Action Unit := do
  callHook .after i
  modifyExec fun e => e.follow f

/-- Run an instruction up to its end, or up to where it waits for another executor. -/
def runInstruction (o : Options) (i : Instruction) : Action Turn := do
  callHook .before i
  match ← i.run o with
  | .flow f =>
    finish i f
    return .ready
  | .call callee reception => return .calling i callee reception
  | .join child => return .joining i child

/-- Take up an instruction that waited for an executor on the same thread. -/
def receive (i : Instruction) (reception : Reception) (outcome : Outcome) : Action Unit := do
  match reception with
  | .ignore => pure ()
  | .append failure =>
    emit outcome.output
    match failure with
    | some f => fail f
    | none => pure ()
  finish i .next

/-- Take up an instruction that waited for an executor on another thread. -/
def receiveJoined (i : Instruction) (result : Except Panic Outcome) : Action Unit := do
  match result with
  | .ok outcome =>
    emit outcome.output
    finish i .next
  | .error p => fail (.join p.message)

end Action

def Guarded.turn (o : Options) : Guarded Turn := do
  let s ← get
  if !s.exec.isLive || s.world.stopped then return .done
  else if s.exec.isExhausted o then
    handle (.instructionLimitExceeded (o.limit.getD 0))
    return .ready
  else
    match s.exec.program.get? s.exec.ip with
    | none => return .done
    | some i =>
      set { s with exec := { s.exec with steps := s.exec.steps + 1 } }
      return (← attempt (Action.runInstruction o i)).getD .ready

end CellMachine
