import CellMachine.Text.Fields

/-!
# Path texts

A path is a text of segments between slashes. Empty segments and single dots lead nowhere and do not
count, except that a dot in front of a relative path does.
-/

namespace CellMachine.Path

def segments (path : String) : List String := (Text.fields '/' path.toList).map String.ofList

def isAbsolute (path : String) : Bool := path.toList.head? = some '/'

/-- A path followed by another one, which replaces it if it is absolute. A path that is followed by
the empty one ends in a slash. -/
def join (base path : String) : String :=
  if isAbsolute path || base.isEmpty then path
  else if base.toList.getLast? = some '/' then base ++ path
  else base ++ "/" ++ path

def ofSegments (absolute : Bool) (segs : List String) : String :=
  (if absolute then "/" else "") ++ "/".intercalate segs

/-- Whether a segment counts, given whether a relative path starts with it. -/
def counts (first : Bool) (segment : String) : Bool :=
  segment != "" && (first || segment != ".")

/-- The segments of a path without those behind the last one that counts; an absolute path is given
without its leading slash. -/
def trimmedSegments (absolute : Bool) (segs : List String) : List String :=
  let flagged := segs.zipIdx.map fun (s, n) => (s, counts (n = 0 && !absolute) s)
  ((flagged.reverse.dropWhile fun f => !f.2).reverse).map (·.1)

/-- A path split into whether it is absolute and its segments up to the last one that counts. -/
def split (path : String) : Bool × List String :=
  let absolute := isAbsolute path
  let segs := segments path
  (absolute, trimmedSegments absolute (if absolute then segs.drop 1 else segs))

def parent? (path : String) : Option String :=
  let (absolute, segs) := split path
  if segs.isEmpty then none
  else some (ofSegments absolute (trimmedSegments absolute segs.dropLast))

/-- A path and the directories above it, the innermost first; `fuel` bounds their number. -/
def ancestorsUpTo : (fuel : Nat) → String → List String
  | 0, path => [path]
  | fuel + 1, path =>
    match parent? path with
    | some up => path :: ancestorsUpTo fuel up
    | none => [path]

def ancestors (path : String) : List String := ancestorsUpTo path.length path

/-- The name of a file without its extension: what stands before the last dot, unless that is
nothing. -/
def stem (name : String) : String :=
  let cs := name.toList
  match cs.reverse.dropWhile (· != '.') with
  | [] => name
  | [_] => name
  | _ :: front => String.ofList front.reverse

/-- The path with the extension of its last segment replaced, or with one added. A path that does
not end in a name is left as it is. -/
def withExtension (path ext : String) : String :=
  let (absolute, segs) := split path
  match segs.getLast? with
  | none => path
  | some name =>
    if name = ".." || name = "." then path
    else ofSegments absolute (segs.dropLast ++ [stem name ++ "." ++ ext])

inductive Component where
  | root
  | current
  | parent
  | normal (name : String)
  deriving DecidableEq

/-- The step that a segment makes, if it leads anywhere. -/
def component? (segment : String) : Option Component :=
  if segment = "" ∨ segment = "." then none
  else if segment = ".." then some .parent
  else some (.normal segment)

/-- The step in front of those that the segments make. A single dot is one only where a relative
path starts with it. -/
def start (path : String) : List Component :=
  if isAbsolute path then [.root]
  else if (segments path).head? = some "." then [.current]
  else []

def components (path : String) : List Component :=
  start path ++ (segments path).filterMap component?

/-- Whether a step may lead out of the directory that it is taken in. -/
def Component.leadsOut : Component → Bool
  | root | parent => true
  | current | normal _ => false

/-- Whether a path leads to a place below where it starts from, step by step: it is not empty, and
no step leads out. -/
def staysInside (path : String) : Bool :=
  !path.isEmpty && !(components path).any Component.leadsOut

end CellMachine.Path
