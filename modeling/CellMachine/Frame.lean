import CellMachine.Bytes

/-!
# Framed bytes

Programs, bundles and snapshots are sequences of words and *frames*: a frame is a word that counts
bytes, and then the bytes. A `Cursor` walks over such input; a read that needs more bytes than are
left says what it was reading, where, and how many bytes it needed.
-/

namespace CellMachine

inductive DecodeError where
  -- The input ends within `what`, whose part at `offset` needs `needed` bytes.
  | truncated (what : String) (offset needed available : Nat)
  -- The frame `what`, which starts at `offset`, does not hold UTF-8.
  | notText (what : String) (offset : Nat)
  deriving DecidableEq

def DecodeError.message : DecodeError → String
  | .truncated what offset needed available =>
    s!"truncated {what} at byte {offset}: needed {needed} bytes, {available} available"
  | .notText what offset => s!"invalid utf-8 in {what} at byte {offset}"

structure Cursor where
  rest : Bytes
  position : Nat := 0
  deriving DecidableEq

/-- A read: it moves the cursor over the bytes that it takes, and a failing one leaves the cursor
where the failing part starts. -/
abbrev Reading := EStateM DecodeError Cursor

namespace Reading

def take (n : Nat) (what : String) : Reading Bytes := fun c =>
  let piece := c.rest.take n
  if piece.length < n then
    .error (.truncated what c.position n c.rest.length) c
  else .ok piece ⟨c.rest.drop n, c.position + n⟩

def word (what : String) : Reading UInt32 := do
  return Bytes.toWord (← take 4 what)

def frame (what : String) : Reading Bytes := do
  let n ← word what
  take n.toNat what

def frames (what : String) : Nat → Reading (List Bytes)
  | 0 => return []
  | n + 1 => do
    let b ← frame what
    return b :: (← frames what n)

/-- At most `n` items, ending where the input ends. -/
def upTo {α : Type} (item : Reading α) : Nat → Reading (List α)
  | 0 => return []
  | n + 1 => do
    if (← get).rest.isEmpty then return []
    else
      let a ← item
      return a :: (← upTo item n)

/-- Items up to the end of the input. Every item takes at least one byte, so there are no more items
than bytes. -/
def toEnd {α : Type} (item : Reading α) : Reading (List α) := do
  upTo item (← get).rest.length

def runOn {α : Type} (r : Reading α) (input : Bytes) : Except DecodeError α :=
  match r.run ⟨input, 0⟩ with
  | .ok a _ => .ok a
  | .error e _ => .error e

end Reading

namespace Bytes

def framed (b : Bytes) : Bytes := ofWord (UInt32.ofNat b.length) ++ b

theorem length_framed (b : Bytes) : b.framed.length = 4 + b.length := by
  simp [framed]

end Bytes

end CellMachine
