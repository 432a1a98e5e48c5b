import CellMachine.Machine.Turn

/-!
# Threads

A machine is a world with threads in it. A thread has an executor and the executors that wait for it
on the same thread; or it waits for another thread, or has come to its end. A step of the machine is
one turn of one thread.

Who moves is an argument of `Machine.advance`, and `Machine.play` lets any events follow one
another. `Machine.next?` is one choice among many: of the threads that can move the one on which the
least time has gone by, and of several such the oldest.
-/

namespace CellMachine

/-- An executor within an instruction that waits for the executor above it. -/
structure Suspended where
  exec : Executor
  instruction : Instruction
  reception : Reception
  deriving DecidableEq

inductive Thread where
  -- Running an executor on top of suspended ones.
  | running (exec : Executor) (callers : List Suspended)
  -- Within an instruction that waits for another thread.
  | waiting (exec : Executor) (instruction : Instruction) (child : Nat) (callers : List Suspended)
  -- At its end, with an outcome or a panic, at a time.
  | ended (result : Except Panic Outcome) (clock : Nat)

inductive Event where
  | turn (n : Nat)
  | stop
  -- The host gives threads from now on, or refuses them for a reason.
  | host (refusal : Option String)
  deriving DecidableEq

/-- Threads in a world. -/
structure Machine where
  world : World
  -- The threads; the first one runs the main program.
  threads : List Thread
  -- The threads that nobody waits for, in the order in which they were spawned.
  detached : List Nat := []

namespace Machine

def start (o : Options) (world : World) (p : Program) (active : UInt32 := 0) : Machine :=
  { world, threads := [.running { program := p, active, mode := o.mode } []] }

def ending? (m : Machine) (n : Nat) : Option (Except Panic Outcome × Nat) :=
  match m.threads[n]? with
  | some (.ended result clock) => some (result, clock)
  | _ => none

/-- The time at which a thread can move, if it can. -/
def due? (m : Machine) : Thread → Option Nat
  | .running e _ => some e.clock
  | .waiting e _ child _ => (m.ending? child).map fun (_, clock) => max e.clock clock
  | .ended .. => none

/-- The thread that moves next. -/
def next? (m : Machine) : Option Nat :=
  let choose (best : Option (Nat × Nat)) (candidate : Thread × Nat) : Option (Nat × Nat) :=
    match m.due? candidate.1, best with
    | none, _ => best
    | some t, none => some (t, candidate.2)
    | some t, some (least, n) => if t < least then some (t, candidate.2) else some (least, n)
  (m.threads.zipIdx.foldl choose none).map (·.2)

def settle (m : Machine) : Machine :=
  let count := m.world.arrivals.length
  { world := { m.world with arrivals := [] }
    threads := m.threads ++ m.world.arrivals.map fun e => .running e []
    detached := m.detached ++ List.range' m.threads.length count }

def put (m : Machine) (n : Nat) (t : Thread) (world : World) : Machine :=
  { m with world, threads := m.threads.set n t }.settle

/-- Put an executor that has taken up an instruction back on its thread. -/
def resumed (m : Machine) (n : Nat) (callers : List Suspended) (a : Action Unit) (s : Focus) :
    Machine :=
  match Guarded.attempt a s with
  | .ok _ s => m.put n (.running s.exec callers) s.world
  | .error p s => m.put n (.ended (.error p) s.exec.clock) s.world

def advance (o : Options) (m : Machine) (n : Nat) : Machine :=
  match m.threads[n]? with
  | some (.running e callers) =>
    match Guarded.turn o ⟨m.world, e⟩ with
    | .ok .ready s => m.put n (.running s.exec callers) s.world
    | .ok (.calling i callee reception) s =>
      m.put n (.running callee (⟨s.exec, i, reception⟩ :: callers)) s.world
    | .ok (.joining i child) s =>
      let m := { m with world := s.world }.settle
      let waiting := Thread.waiting s.exec i m.threads.length callers
      { m with threads := m.threads.set n waiting ++ [.running child []] }
    | .ok .done s =>
      match callers with
      | [] => m.put n (.ended (.ok s.exec.outcome) s.exec.clock) s.world
      | c :: callers =>
        m.resumed n callers (Action.receive c.instruction c.reception s.exec.outcome)
          ⟨s.world, { c.exec with clock := s.exec.clock }⟩
    | .error p s => m.put n (.ended (.error p) s.exec.clock) s.world
  | some (.waiting e i child callers) =>
    match m.ending? child with
    | some (result, clock) =>
      m.resumed n callers (Action.receiveJoined i result)
        ⟨m.world, { e with clock := max e.clock clock }⟩
    | none => m
  | _ => m

/-- The machine on a host that gives threads, or refuses them for a reason. -/
def onHost (m : Machine) (refusal : Option String) : Machine :=
  { m with world := { m.world with host := { m.world.host with refusal } } }

def after (o : Options) (m : Machine) : Event → Machine
  | .turn n => m.advance o n
  | .stop => { m with world := { m.world with stopped := true } }
  | .host refusal => m.onHost refusal

def play (o : Options) (m : Machine) (es : List Event) : Machine := es.foldl (after o) m

/-- Run for at most `fuel` turns, until `done` holds or no thread can move. -/
def runUntil (done : Machine → Bool) (o : Options) : (fuel : Nat) → Machine → Machine
  | 0, m => m
  | fuel + 1, m =>
    if done m then m
    else
      match m.next? with
      | none => m
      | some n => runUntil done o fuel (m.advance o n)

def mainEnded (m : Machine) : Bool := (m.ending? 0).isSome

def allEnded (m : Machine) : Bool :=
  m.threads.all fun
    | .ended .. => true
    | _ => false

/-- The first panic of a detached thread, in the order of their spawning, as a fault. -/
def waitFault (m : Machine) : Option Fault :=
  m.detached.findSome? fun n =>
    match m.ending? n with
    | some (.error p, _) => some (.join p.message)
    | _ => none

end Machine

end CellMachine
