import CellMachine.Files.Host
import CellMachine.Text.Numeral

/-!
# Host commands

The command lines that a host directory is asked to run: simple commands, joined by `;`, `&&` and
`||`, with quotes and with output redirected to files or to the other stream. The commands
themselves are the everyday ones on files and text; any other one is reported as not found.
-/

namespace CellMachine.Command

/-! ## Reading a command line -/

inductive Token where
  | word (text : List Char)
  | next
  | ifSuccess  -- go on if the last command succeeded
  | ifFailure  -- go on if it failed
  | toFile (stream : Nat) (append : Bool)  -- send a stream to the file that the next word names
  | toStream (stream other : Nat)  -- send a stream where another one goes

def flush : Option (List Char) → List Token
  | none => []
  | some w => [.word w]

/-- The stream that a word in front of `>` selects; without one it is standard output. -/
def stream (word : Option (List Char)) : Nat × List Token :=
  match word with
  | some [d] => if d.isDigit then (d.toNat - '0'.toNat, []) else (1, [.word [d]])
  | word => (1, flush word)

/-- The tokens of a command line, given the quote that is open and the word that has begun. -/
def tokens : (quote : Option Char) → (word : Option (List Char)) → List Char → List Token
  | _, word, [] => flush word
  | some q, word, c :: rest =>
    if c = q then tokens none (some (word.getD [])) rest
    else tokens (some q) (some (word.getD [] ++ [c])) rest
  | none, word, '&' :: '&' :: rest => flush word ++ .ifSuccess :: tokens none none rest
  | none, word, '|' :: '|' :: rest => flush word ++ .ifFailure :: tokens none none rest
  | none, word, '>' :: '&' :: d :: rest =>
    let (n, before) := stream word
    before ++ .toStream n (d.toNat - '0'.toNat) :: tokens none none rest
  | none, word, '>' :: '>' :: rest =>
    let (n, before) := stream word
    before ++ .toFile n true :: tokens none none rest
  | none, word, '>' :: rest =>
    let (n, before) := stream word
    before ++ .toFile n false :: tokens none none rest
  | none, word, '\\' :: c :: rest => tokens none (some (word.getD [] ++ [c])) rest
  | none, word, c :: rest =>
    if c = '\'' ∨ c = '"' then tokens (some c) (some (word.getD [])) rest
    else if c = ';' ∨ c = '\n' then flush word ++ .next :: tokens none none rest
    else if c = ' ' ∨ c = '\t' then flush word ++ tokens none none rest
    else tokens none (some (word.getD [] ++ [c])) rest

/-- When a command is run, given whether the one before it succeeded. -/
inductive Joint where
  | always | onSuccess | onFailure
  deriving DecidableEq

inductive Redirection where
  | toFile (stream : Nat) (append : Bool) (path : String)
  | toStream (stream other : Nat)

structure Simple where
  joint : Joint
  words : List String := []
  redirections : List Redirection := []

def commands (present : Simple) : List Token → List Simple
  | [] => [present]
  | .next :: rest => present :: commands { joint := .always } rest
  | .ifSuccess :: rest => present :: commands { joint := .onSuccess } rest
  | .ifFailure :: rest => present :: commands { joint := .onFailure } rest
  | .toFile n append :: .word w :: rest =>
    let r := Redirection.toFile n append (String.ofList w)
    commands { present with redirections := present.redirections ++ [r] } rest
  | .toFile _ _ :: rest => commands present rest
  | .toStream n other :: rest =>
    commands { present with redirections := present.redirections ++ [.toStream n other] } rest
  | .word w :: rest => commands { present with words := present.words ++ [String.ofList w] } rest

def ofText (line : String) : List Simple :=
  commands { joint := .always } (tokens none none line.toList)

/-! ## Running -/

structure State where
  host : Host
  status : Nat := 0
  finished : Bool := false
  killed : Bool := false

/-- What a command leaves behind besides its effect on the system. -/
structure Result where
  out : Bytes := []
  err : String := ""
  status : Nat := 0

/-- The text of a format in which a backslash begins an escape and each `%s` or `%d` takes an
argument. -/
def formatted : List Char → List String → List Char
  | [], _ => []
  | '\\' :: 'n' :: rest, args => '\n' :: formatted rest args
  | '\\' :: 't' :: rest, args => '\t' :: formatted rest args
  | '\\' :: '\\' :: rest, args => '\\' :: formatted rest args
  | '%' :: '%' :: rest, args => '%' :: formatted rest args
  | '%' :: 's' :: rest, args => (args.headD "").toList ++ formatted rest args.tail
  | '%' :: 'd' :: rest, args => (args.headD "0").toList ++ formatted rest args.tail
  | c :: rest, args => c :: formatted rest args

/-- The wording of a failed operation without the number of the error. -/
def reason (e : IoError) : String :=
  match Text.splitFirst '(' e.text.toList with
  | some (front, _) => String.ofList front.dropLast
  | none => e.text

/-- Do something with each path, and report the failures under the name of the command. -/
def eachPath (name : String) (act : Host → String → Except IoError Host) (h : Host)
    (paths : List String) : Host × Result :=
  paths.foldl (fun (h, r) path =>
    match act h path with
    | .ok h => (h, r)
    | .error e =>
      (h, { r with err := r.err ++ s!"{name}: {path}: {reason e}\n", status := 1 })) (h, {})

def concatenated (h : Host) (paths : List String) : Result :=
  paths.foldl (fun r path =>
    match h.readFile path with
    | .ok data => { r with out := r.out ++ data }
    | .error e => { r with err := r.err ++ s!"cat: {path}: {reason e}\n", status := 1 }) {}

/-- Run a command other than `exit` and `kill`. -/
def perform (h : Host) (name : String) (args : List String) : Host × Result :=
  match name, args with
  | "true", _ | ":", _ => (h, {})
  | "false", _ => (h, { status := 1 })
  | "echo", "-n" :: args => (h, { out := Text.encode (" ".intercalate args) })
  | "echo", args => (h, { out := Text.encode (" ".intercalate args ++ "\n") })
  | "printf", [] => (h, { err := "sh: 1: printf: usage: printf format [arg ...]\n", status := 2 })
  | "printf", format :: args =>
    (h, { out := Text.encode (String.ofList (formatted format.toList args)) })
  | "cat", paths => (h, concatenated h paths)
  | "pwd", _ => (h, { out := Text.encode ("/" ++ "/".intercalate h.cwd ++ "\n") })
  | "touch", paths =>
    eachPath "touch" (fun h p => if h.isPresent p then .ok h else h.writeFile p []) h paths
  | "mkdir", paths => eachPath "mkdir" Host.makeDirectory h paths
  | "rm", paths => eachPath "rm" Host.removeFile h paths
  | name, _ => (h, { err := s!"sh: 1: {name}: not found\n", status := 127 })

inductive Sending where
  | out | err
  | file (path : String)

def Sending.send (h : Host) (bytes : Bytes) : Sending → Host
  | out => { h with stdout := h.stdout ++ bytes }
  | err => { h with stderr := h.stderr ++ bytes }
  | file path =>
    match h.readFile path with
    | .ok data => (h.writeFile path (data ++ bytes)).toOption.getD h
    | .error _ => h

/-- Open the files that streams are sent to, and give where standard output and standard error
go. -/
def redirected (h : Host) (sends : Sending × Sending) :
    List Redirection → Except String (Host × Sending × Sending)
  | [] => .ok (h, sends)
  | .toStream n other :: rest =>
    let goal := if other = 2 then sends.2 else sends.1
    redirected h (if n = 2 then (sends.1, goal) else (goal, sends.2)) rest
  | .toFile n append path :: rest =>
    let kept := if append then (h.readFile path).toOption.getD [] else []
    match h.writeFile path kept with
    | .error e => .error s!"sh: 1: cannot create {path}: {reason e}\n"
    | .ok h => redirected h (if n = 2 then (sends.1, .file path) else (.file path, sends.2)) rest

def runSimple (s : State) (c : Simple) : State :=
  match c.words with
  | "kill" :: "-9" :: "$$" :: _ => { s with finished := true, killed := true }
  | ["exit"] => { s with finished := true }
  | "exit" :: n :: _ =>
    match Text.natural? 10 n.toList with
    | some n => { s with finished := true, status := n % 256 }
    | none =>
      { s with
        finished := true
        status := 2
        host := s.host.printError s!"sh: 1: exit: Illegal number: {n}\n" }
  | words =>
    match redirected s.host (.out, .err) c.redirections with
    | .error message => { s with host := s.host.printError message, status := 2 }
    | .ok (h, output, diagnostics) =>
      match words with
      | [] => { s with host := h, status := 0 }
      | name :: args =>
        let (h, r) := perform h name args
        let h := output.send h r.out
        let h := diagnostics.send h (Text.encode r.err)
        { s with host := h, status := r.status }

def runAll (s : State) (cs : List Simple) : State :=
  cs.foldl (fun s c =>
    let due := match c.joint with
      | .always => true
      | .onSuccess => s.status = 0
      | .onFailure => s.status ≠ 0
    if s.finished || !due then s else runSimple s c) s

/-- Run a command line in a directory: the exit status, or `none` for an interpreter that was
killed, and the system afterwards. -/
def run (h : Host) (line : String) : Option Nat × Host :=
  let s := runAll { host := h } (ofText line)
  (if s.killed then none else some s.status, s.host)

end CellMachine.Command
