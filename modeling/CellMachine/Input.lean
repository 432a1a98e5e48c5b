import CellMachine.Files.ProviderError
import CellMachine.Text.Utf8

/-!
# Input

The text that a program reads, line by line or by numbers of characters. It is either known
beforehand or a stream of bytes, which may turn out to be no text.
-/

namespace CellMachine

inductive Input where
  | scripted (rest : List Char)  -- characters known beforehand
  | stream (rest : Bytes)  -- bytes of a stream
  deriving DecidableEq

abbrev InputAction := EStateM ProviderError Input

namespace Input

/-- The characters before the first line feed, and what is behind it. -/
def splitLine : List Char → List Char × List Char
  | [] => ([], [])
  | c :: rest =>
    if c = '\n' then ([], rest)
    else
      let (line, rest) := splitLine rest
      (c :: line, rest)

/-- The bytes up to the first line feed, that one included, and what is behind it. -/
def splitLineBytes : Bytes → Bytes × Bytes
  | [] => ([], [])
  | b :: rest =>
    if b = 10 then ([b], rest)
    else
      let (line, rest) := splitLineBytes rest
      (b :: line, rest)

def trimLineEnd (line : List Char) : List Char :=
  (line.reverse.dropWhile fun c => c = '\n' || c = '\r').reverse

/-- The next line without its end. Of a stream, a line that is not UTF-8 is lost. -/
def readLine : InputAction String := do
  match ← get with
  | scripted [] => throw .endOfInput
  | scripted (c :: cs) =>
    let (line, rest) := splitLine (c :: cs)
    set (scripted rest)
    return String.ofList line
  | stream [] => throw .endOfInput
  | stream (b :: bs) =>
    let (line, rest) := splitLineBytes (b :: bs)
    set (stream rest)
    match Text.decode? line with
    | some s => return String.ofList (trimLineEnd s.toList)
    | none => throw (.ofIo "stdin" .notText)

def charOfFirst? (n : Nat) (bytes : Bytes) : Option (Char × Bytes) :=
  if bytes.length < n then none
  else
    match (Text.decode? (bytes.take n)).map String.toList with
    | some [c] => some (c, bytes.drop n)
    | _ => none

/-- The character in front of a stream, which has one to four bytes. -/
def firstChar? (bytes : Bytes) : Option (Char × Bytes) :=
  [1, 2, 3, 4].findSome? fun n => charOfFirst? n bytes

/-- At most `n` characters of a stream. Bytes that begin no character are lost together with all
that follow. -/
def takeChars : (n : Nat) → Bytes → List Char × Bytes
  | 0, bytes => ([], bytes)
  | n + 1, bytes =>
    match firstChar? bytes with
    | none => ([], [])
    | some (c, rest) =>
      let (cs, rest) := takeChars n rest
      (c :: cs, rest)

def readChars (n : Nat) : InputAction String := do
  match ← get with
  | scripted cs =>
    set (scripted (cs.drop n))
    return String.ofList (cs.take n)
  | stream bytes =>
    let (cs, rest) := takeChars n bytes
    set (stream rest)
    return String.ofList cs

end Input

end CellMachine
