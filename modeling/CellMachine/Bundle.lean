import CellMachine.Frame
import CellMachine.OrderedMap
import CellMachine.Text.Utf8

/-!
# Bundles

A bundle is one byte string with a program and the files it may read: the program as a frame, then
for each file its name and its data as frames, in ascending order of names.
-/

namespace CellMachine

abbrev FileMap := OrderedMap String Bytes

structure Bundle where
  main : Bytes
  files : FileMap := ∅
  deriving DecidableEq

namespace Bundle

def encode (b : Bundle) : Bytes :=
  b.main.framed ++ b.files.toList.flatMap fun (name, data) =>
    (Text.encode name).framed ++ data.framed

/-- Read one file. A name that is no text is reported where its frame starts, and before the data
are read. -/
def readFile : Reading (String × Bytes) := do
  let start := (← get).position
  let name ← Reading.frame "bundle file name"
  match Text.decode? name with
  | none => throw (.notText "bundle file name" start)
  | some name => return (name, ← Reading.frame "bundle file data")

/-- Read the program and the files in the order in which they are stored. -/
def readAll : Reading (Bytes × List (String × Bytes)) := do
  let main ← Reading.frame "bundle main program"
  return (main, ← Reading.toEnd readFile)

/-- The bundle that `input` is the form of. Of two files with one name the later counts. -/
def decode (input : Bytes) : Except DecodeError Bundle :=
  (readAll.runOn input).map fun (main, files) => ⟨main, OrderedMap.ofList files⟩

end Bundle

end CellMachine
