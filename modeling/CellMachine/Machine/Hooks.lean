import CellMachine.Machine.World

/-!
# Calls of extensions

A handler is called with the active namespace and the position as they are at the moment of the
call. A panic inside a handler goes no further than the call, which then fails. Every call is put on
record, whoever makes it.
-/

namespace CellMachine

namespace Act

def answer {α : Type} (a : Action α) : Action (Except Fault α) := fun s =>
  match a s with
  | .ok value s => .ok (.ok value) s
  | .error (.fault f) s => .ok (.error f) s
  | .error (.panic p) s => .error (.panic p) s

/-- Do what a handler asks for. -/
def perform {α : Type} : Act α → Action α
  | done a => pure a
  | refuse message => Action.fail (.extension (.refused message))
  | .panic p => throw (.panic p)
  | read address next => do
    let r ← answer (Action.reading fun ns => ns.load address)
    perform (next r)
  | write address value next => do
    let r ← answer (Action.setCell address value)
    perform (next r)
  | delete address next => do
    let r ← answer (do Action.setMemory (← Action.reading fun ns => ns.remove address))
    perform (next r)
  | emit bytes next => do
    Action.emit bytes
    perform next
  | print text next => do
    Action.print text
    perform next
  | lookUp name next => do
    perform (next ((← get).world.notes.get? name))
  | note name value next => do
    Action.modifyWorld fun w => { w with notes := w.notes.insert name value }
    perform next

end Act

def Instruction.call (i : Instruction) (s : Focus) : Call :=
  { opcode := i.opcode, args := i.args, ip := s.exec.ip, active := s.exec.active }

/-- What the call of a hook fails with if the handler does not get through it. -/
def Handler.failure (h : Handler) : Abort → Fault
  | .fault f => f
  | .panic p => .extension (.panicked h.name p.message)

def Focus.recorded (s : Focus) (c : HookCall) : Focus :=
  { s with world := { s.world with calls := s.world.calls ++ [c] } }

/-- Call a hook of a handler about an instruction. -/
def Handler.call (h : Handler) (hook : Hook) (i : Instruction) : Action Unit := fun s =>
  match (h.hook hook (i.call s)).perform s with
  | .ok _ t => .ok () (t.recorded ⟨h, hook, i.call s, none⟩)
  | .error e t =>
    .error (.fault (h.failure e)) (t.recorded ⟨h, hook, i.call s, some (h.failure e)⟩)

namespace Action

def handler? : Action (Option Handler) := do
  let s ← get
  return s.world.table.handler? s.exec.active

/-- Call a hook of the handler that is bound to the active namespace, if there is one. -/
def callHook (hook : Hook) (i : Instruction) : Action Unit := do
  match ← handler? with
  | some h => h.call hook i
  | none => pure ()

end Action

end CellMachine
