/-!
# Source tokens

Source text is a sequence of lines of tokens. Spaces end tokens and line feeds end lines, except
between quotes, which are dropped; a backslash between quotes takes the character after it
literally. Two slashes begin a comment, which keeps its text as part of the token that it stands in.

`scan` is a recursion on the text that puts each character in front of what the rest of the text
scans to. Every text scans to at least one line, and every line has at least one token, which may be
empty.
-/

namespace CellMachine.Source

inductive Mode where
  | plain
  | quoted (mark : Char)
  | comment
  deriving DecidableEq

abbrev Sheet := List (List (List Char))

namespace Sheet

def blank : Sheet := [[[]]]

def push (c : Char) : Sheet → Sheet
  | (token :: tokens) :: rest => ((c :: token) :: tokens) :: rest
  | [] :: rest => [[c]] :: rest
  | [] => [[[c]]]

def breakToken : Sheet → Sheet
  | line :: rest => ([] :: line) :: rest
  | [] => [[[]]]

def breakLine (sheet : Sheet) : Sheet := [[]] :: sheet

end Sheet

def scan : Mode → (text : List Char) → Sheet
  | _, [] => .blank
  | .comment, c :: rest =>
    if c = '\n' then (scan .plain rest).breakLine else (scan .comment rest).push c
  | .quoted mark, c :: rest =>
    if c = mark then scan .plain rest
    else if c = '\\' then
      match rest with
      | [] => .blank
      | c' :: rest => (scan (.quoted mark) rest).push c'
    else (scan (.quoted mark) rest).push c
  | .plain, '/' :: '/' :: rest => ((scan .comment rest).push '/').push '/'
  | .plain, c :: rest =>
    if c = '"' ∨ c = '\'' then scan (.quoted c) rest
    else if c = ' ' then (scan .plain rest).breakToken
    else if c = '\n' then (scan .plain rest).breakLine
    else (scan .plain rest).push c

def lines (text : String) : List (List String) :=
  (scan .plain text.toList).map fun line => line.map String.ofList

/-- A text as a quoted token: between single quotes, with a backslash in front of every backslash
and single quote. -/
def quoted (text : List Char) : List Char :=
  '\'' :: text.flatMap (fun c => if c = '\\' ∨ c = '\'' then ['\\', c] else [c]) ++ ['\'']

end CellMachine.Source
