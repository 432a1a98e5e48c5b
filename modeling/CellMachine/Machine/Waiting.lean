import CellMachine.Machine.Threads

/-!
# Waiting for detached threads

An execution keeps a list of handles, one for each detached thread that has not been asked for yet.
The handle of a thread is put into the list by the thread that has started it, when the new thread
may be running already. Waiting takes the whole list away, joins the threads in it one after the
other, and begins anew, until it finds the list empty. Threads go on in the meantime, and the list
fills again.

What happens next is an argument of `Waiting.after`. In the runs of `Execution.ofMachine` every
handle is put into the list at once, and what waiting comes to is `Machine.waitFault`.
-/

namespace CellMachine

structure Waiting where
  machine : Machine
  -- The detached threads whose handles are not in the list yet, each behind the thread that has
  -- started it.
  owed : List (Nat × Nat) := []
  handles : List Nat := []
  -- What has been taken from the list and is still to be joined.
  batch : List Nat := []
  -- The threads that have been joined, in this order.
  joined : List Nat := []
  -- The first panic among them, as a fault.
  failure : Option Fault := none
  result : Option (Except Fault Unit) := none

def Machine.joinFault? (m : Machine) (n : Nat) : Option Fault :=
  match m.ending? n with
  | some (.error p, _) => some (.join p.message)
  | _ => none

namespace Waiting

inductive Move where
  | turn (n : Nat)
  -- The handle of the thread with this number is put into the list.
  | push (n : Nat)
  | wait
  | stop
  | host (refusal : Option String)
  deriving DecidableEq

/-- Whether a thread has put all handles into the list that it has to. -/
def isClear (w : Waiting) (n : Nat) : Bool := w.owed.all (·.1 ≠ n)

def isOver (w : Waiting) (n : Nat) : Bool := (w.machine.ending? n).isSome && w.isClear n

/-- Whether there is an execution to be waited for: the main program has come to its end, and not by
a panic. -/
def isOpen (w : Waiting) : Bool := w.isOver 0 && (w.machine.joinFault? 0).isNone

/-- Whether a thread may have a turn. It may not while a handle is owed, by it or by the thread that
it waits for. -/
def mayMove (w : Waiting) (n : Nat) : Bool :=
  w.isClear n &&
    match w.machine.threads[n]? with
    | some (.waiting _ _ child _) => w.isClear child
    | _ => true

/-- One turn of a thread. It owes the handles of the threads that it starts. -/
def turn (o : Options) (w : Waiting) (n : Nat) : Waiting :=
  if w.mayMove n then
    let m := w.machine.advance o n
    let started := m.detached.drop w.machine.detached.length
    { w with machine := m, owed := w.owed ++ started.map fun c => (n, c) }
  else w

def push (w : Waiting) (n : Nat) : Waiting :=
  if w.owed.any (·.2 = n) then
    { w with owed := w.owed.filter (·.2 ≠ n), handles := w.handles ++ [n] }
  else w

/-- Take all handles out of the list. If there are none, waiting is at its end. -/
def take (w : Waiting) : Waiting :=
  if w.handles.isEmpty then { w with result := some (w.failure.elim (.ok ()) .error) }
  else { w with batch := w.handles, handles := [] }

def join (w : Waiting) (n : Nat) (rest : List Nat) : Waiting :=
  { w with batch := rest, joined := w.joined ++ [n]
           failure := w.failure.or (w.machine.joinFault? n) }

def wait (w : Waiting) : Waiting :=
  match w.result, w.batch with
  | some _, _ => w
  | none, [] => if w.isOpen then w.take else w
  | none, n :: rest => if w.isOver n then w.join n rest else w

def after (o : Options) (w : Waiting) : Move → Waiting
  | .turn n => w.turn o n
  | .push n => w.push n
  | .wait => w.wait
  | .stop =>
    { w with machine := { w.machine with world := { w.machine.world with stopped := true } } }
  | .host refusal => { w with machine := w.machine.onHost refusal }

def play (o : Options) (w : Waiting) (moves : List Move) : Waiting := moves.foldl (after o) w

end Waiting

end CellMachine
