import CellMachine.ErrorMode
import CellMachine.Source.Decompile
import CellMachine.Text.Fields
import CellMachine.Text.Numeral

/-!
# The command line

What the arguments of the program say: a task, and the options for it. Options come in front of the
task or behind it; those that all tasks share may stand on either side, and the side behind the task
wins. Words after a file to run are arguments for the program in it, from the first one on that is
no option.

An option and its value are two arguments, `--name=value`, or, for options with a letter, `-ovalue`.
A value is checked when the next argument has been looked at, so that an unknown argument is found
before a bad value in front of it.
-/

namespace CellMachine

/-! ## Tasks -/

inductive Task where
  | run (file : String) (args : List String)
  | compile (file : String) (output : Option String)
  | decompile (file : String) (assume : Option Source.AssumedType) (noStrings : Bool)
      (output : Option String)
  | emit (file : String) (output : Option String)
  | bundle (main : String) (files : List String) (output : String)
  | exec (file : String) (args : List String)
  | init
  deriving DecidableEq

structure Globals where
  mode : Option ErrorMode := none
  superuser : Bool := false
  restricted : Bool := false
  quiet : Bool := false
  root : Option String := none
  limit : Option Nat := none
  pluginDirs : List String := []
  verbosity : Nat := 0
  deriving DecidableEq

structure Invocation where
  globals : Globals
  task : Task
  deriving DecidableEq

namespace CommandLine

/-! ## Words -/

inductive Verb where
  | run | compile | decompile | emit | bundle | exec | init
  deriving DecidableEq

namespace Verb

def ofName? : String → Option Verb
  | "run" => some run
  | "compile" => some compile
  | "decompile" => some decompile
  | "emit" => some emit
  | "bundle" => some bundle
  | "exec" => some exec
  | "init" => some init
  | _ => none

def takesFile (v : Verb) : Bool := v ≠ init

def takesArguments (v : Verb) : Bool := v = run || v = exec

end Verb

/-- Whether a word stands for a task or for help on tasks. -/
def isCommand (word : String) : Bool := (Verb.ofName? word).isSome || word = "help"

inductive OptionName where
  | errorMode | superuser | restricted | quiet | root | maxSteps | pluginDir | verbose | help
  | version | output | assume | noStrings | file
  deriving DecidableEq

inductive UsageError where
  | help
  | version
  | noArguments
  | missingCommand
  | unknownCommand (word : String)
  | unknownArgument (argument : String)
  | missingArgument (what : String)
  | missingValue (what : String)
  | badValue (o : OptionName) (value : String)
  | repeated (o : OptionName)
  | unexpectedValue (o : OptionName)
  deriving DecidableEq

/-- The exit status on a usage error. To have asked for help is none. -/
def UsageError.status : UsageError → UInt8
  | .help | .version => 0
  | _ => 2

namespace OptionName

def long : OptionName → String
  | errorMode => "error-mode"
  | superuser => "sudo"
  | restricted => "restricted"
  | quiet => "quiet"
  | root => "root"
  | maxSteps => "max-steps"
  | pluginDir => "plugin-dir"
  | verbose => "verbose"
  | help => "help"
  | version => "version"
  | output => "output"
  | assume => "assume"
  | noStrings => "no-strings"
  | file => "file"

def short? : OptionName → Option Char
  | quiet => some 'q'
  | verbose => some 'v'
  | help => some 'h'
  | version => some 'V'
  | output => some 'o'
  | _ => none

def all : List OptionName :=
  [errorMode, superuser, restricted, quiet, root, maxSteps, pluginDir, verbose, help, version,
    output, assume, noStrings, file]

/-- Whether an option may stand behind a verb, or in front of all verbs. -/
def belongsTo (o : OptionName) (scope : Option Verb) : Bool :=
  match o, scope with
  | version, scope => scope.isNone
  | output, some v => v ∈ [.compile, .decompile, .emit, .bundle]
  | assume, some v | noStrings, some v => v = .decompile
  | file, some v => v = .bundle
  | output, none | assume, none | noStrings, none | file, none => false
  | _, _ => true

def ofLong? (scope : Option Verb) (name : String) : Option OptionName :=
  all.find? fun o => o.belongsTo scope && o.long = name

def ofShort? (scope : Option Verb) (c : Char) : Option OptionName :=
  all.find? fun o => o.belongsTo scope && o.short? = some c

def takesValue (o : OptionName) : Bool :=
  o ∈ [errorMode, root, maxSteps, pluginDir, output, assume, file]

def isRepeatable (o : OptionName) : Bool := o ∈ [pluginDir, verbose, file]

end OptionName

inductive Given where
  | errorMode (m : ErrorMode)
  | root (path : String)
  | maxSteps (n : Nat)
  | pluginDir (path : String)
  | output (path : String)
  | assume (t : Source.AssumedType)
  | file (entry : String)
  | flag (o : OptionName)
  deriving DecidableEq

def Given.option : Given → OptionName
  | errorMode _ => .errorMode
  | root _ => .root
  | maxSteps _ => .maxSteps
  | pluginDir _ => .pluginDir
  | output _ => .output
  | assume _ => .assume
  | file _ => .file
  | flag o => o

def path (what value : String) : Except UsageError String :=
  if value.isEmpty then .error (.missingValue what) else .ok value

/-- Read the value of an option; one that takes none is read from the empty text. -/
def OptionName.read (o : OptionName) (value : String) : Except UsageError Given :=
  match o with
  | .errorMode => ((ErrorMode.parse value).mapError fun _ => .badValue o value).map .errorMode
  | .maxSteps =>
    match Text.unsigned? 10 UInt64.size value.toList with
    | some n => .ok (.maxSteps n)
    | none => .error (.badValue o value)
  | .assume =>
    match Source.AssumedType.ofName? value with
    | some t => .ok (.assume t)
    | none => .error (.badValue o value)
  | .root => (path o.long value).map .root
  | .pluginDir => (path o.long value).map .pluginDir
  | .output => (path o.long value).map .output
  | .file => .ok (.file value)
  | .help => .error .help
  | .version => .error .version
  | .superuser | .restricted | .quiet | .verbose | .noStrings => .ok (.flag o)

/-! ## One side of the verb -/

inductive Pending where
  | option (o : OptionName) (value : Option String)
  | file (path : String)

/-- What the arguments on one side of the verb have said so far. -/
structure Level where
  given : List Given := []
  words : List String := []
  pending : Option Pending := none

namespace Level

def take (l : Level) (o : OptionName) (value : String) : Except UsageError Level := do
  if !o.isRepeatable && l.given.any fun g => g.option = o then throw (.repeated o)
  let g ← o.read value
  return { l with given := l.given ++ [g] }

def settle (l : Level) : Except UsageError Level :=
  let settled := { l with pending := none }
  match l.pending with
  | none => .ok settled
  | some (.option o none) => .error (.missingValue o.long)
  | some (.option o (some value)) => settled.take o value
  | some (.file p) => (path "file" p).map fun _ => settled

/-- An option on its own: a flag, or an option whose value is to come. -/
def bare (l : Level) (o : OptionName) : Except UsageError Level := do
  let l ← l.settle
  if o.takesValue then return { l with pending := some (.option o none) } else l.take o ""

def long (l : Level) (o : OptionName) : (value : Option String) → Except UsageError Level
  | none => l.bare o
  | some value => do
    if o.takesValue then (← l.settle).take o value else throw (.unexpectedValue o)

/-- Options by their letters. What follows the letter of an option with a value is the value, with
or without an equals sign in front. -/
def letters (scope : Option Verb) : List Char → Level → Except UsageError Level
  | [], l => .ok l
  | c :: rest, l =>
    match OptionName.ofShort? scope c with
    | none => .error (.unknownArgument (String.ofList ['-', c]))
    | some o =>
      if o.takesValue then
        match rest with
        | [] => l.bare o
        | '=' :: value => l.long o (some (String.ofList value))
        | value => l.long o (some (String.ofList value))
      else do letters scope rest (← l.bare o)

def awaits (l : Level) : Option OptionName :=
  match l.pending with
  | some (.option o none) => some o
  | _ => none

def passesOptions (l : Level) (scope : Option Verb) : Bool :=
  match scope with
  | some v => v.takesArguments && !l.words.isEmpty
  | none => false

/-- Take a word that is no option. The first one is the file. After the second one all that follow
are words. `literal` says that all that follow are words already; without a verb that is what gives
a task that comes too late away. -/
def word (l : Level) (scope : Option Verb) (literal : Bool) (w : String) :
    Except UsageError (Level × Bool) :=
  match scope with
  | none => .error (if literal && isCommand w then .unknownArgument w else .unknownCommand w)
  | some v =>
    if l.words.isEmpty && v.takesFile then do
      let l ← l.settle
      return ({ l with words := [w], pending := some (.file w) }, literal)
    else if v.takesArguments then do
      let l ← l.settle
      return ({ l with words := l.words ++ [w] }, true)
    else .error (.unknownArgument w)

end Level

/-! ## Arguments -/

inductive Shape where
  | escape  -- two dashes: all that follow are words
  | long (name : String) (value : Option String)
  | short (letters : List Char)
  | plain  -- anything else, also a dash alone
  deriving DecidableEq

def Shape.of (argument : String) : Shape :=
  match argument.toList with
  | '-' :: '-' :: [] => .escape
  | '-' :: '-' :: name =>
    match Text.splitFirst '=' name with
    | some (name, value) => .long (String.ofList name) (some (String.ofList value))
    | none => .long (String.ofList name) none
  | '-' :: c :: rest => .short (c :: rest)
  | _ => .plain

def option? (scope : Option Verb) (l : Level) (argument : String) :
    Except UsageError (Option Level) :=
  match Shape.of argument with
  | .long name value =>
    match OptionName.ofLong? scope name with
    | some o => (l.long o value).map some
    | none => if l.passesOptions scope then .ok none else .error (.unknownArgument argument)
  | .short cs =>
    if l.passesOptions scope && cs.any fun c => (OptionName.ofShort? scope c).isNone then .ok none
    else (l.letters scope cs).map some
  | .escape | .plain => .ok none

/-- What is asked for by the words after `help`. No task has tasks of its own. -/
def helpOn : List String → UsageError
  | [] => .help
  | [w] => if isCommand w then .help else .unknownCommand w
  | w :: w' :: _ => if isCommand w then .unknownCommand w' else .unknownCommand w

/-- Take the arguments on one side of the verb. In front of it, that side ends where the verb is
found, which is given with the arguments behind it. -/
def scan (scope : Option Verb) : (literal : Bool) → List String → Level →
    Except UsageError (Level × Option (Verb × List String))
  | _, [], l => .ok (l, none)
  | true, a :: rest, l => do
    let (l, literal) ← l.word scope true a
    scan scope literal rest l
  | false, a :: rest, l =>
    if scope.isNone && l.awaits.isNone && isCommand a then
      match Verb.ofName? a with
      | some v => .ok (l, some (v, rest))
      | none => .error (helpOn rest)
    else if Shape.of a = .escape then scan scope true rest l
    else do
      match ← option? scope l a with
      | some l => scan scope false rest l
      | none =>
        match l.awaits with
        | some o => scan scope false rest { l with pending := some (.option o (some a)) }
        | none =>
          let (l, literal) ← l.word scope false a
          scan scope literal rest l

/-! ## What is asked for -/

/-- The options that count, given those in front of the verb and those behind it: the occurrences
behind it, if there are any. -/
def effective (outer inner : Level) (o : OptionName) : List Given :=
  let of (l : Level) := l.given.filter fun g => g.option = o
  if (of inner).isEmpty then of outer else of inner

def globals (outer inner : Level) : Globals :=
  let all := effective outer inner
  let isGiven (o : OptionName) : Bool := !(all o).isEmpty
  { mode := (all .errorMode).findSome? fun
      | .errorMode m => some m
      | _ => none
    superuser := isGiven .superuser
    restricted := isGiven .restricted
    quiet := isGiven .quiet
    root := (all .root).findSome? fun
      | .root p => some p
      | _ => none
    limit := (all .maxSteps).findSome? fun
      | .maxSteps n => some n
      | _ => none
    pluginDirs := (all .pluginDir).filterMap fun
      | .pluginDir p => some p
      | _ => none
    verbosity := min (all .verbose).length 255 }

def task (v : Verb) (l : Level) : Except UsageError Task := do
  let output := l.given.findSome? fun
    | .output p => some p
    | _ => none
  match v, l.words with
  | .init, _ => return .init
  | _, [] => throw (.missingArgument "file")
  | .run, file :: args => return .run file args
  | .exec, file :: args => return .exec file args
  | .compile, file :: _ => return .compile file output
  | .emit, file :: _ => return .emit file output
  | .decompile, file :: _ =>
    let assume := l.given.findSome? fun
      | .assume t => some t
      | _ => none
    return .decompile file assume (l.given.contains (.flag .noStrings)) output
  | .bundle, main :: _ =>
    match output with
    | none => throw (.missingArgument "output")
    | some output =>
      let files := l.given.filterMap fun
        | .file entry => some entry
        | _ => none
      return .bundle main files output

def parse (args : List String) : Except UsageError Invocation := do
  match ← scan none false args {} with
  | (outer, none) =>
    let outer ← outer.settle
    throw (if outer.given.isEmpty then .noArguments else .missingCommand)
  | (outer, some (v, rest)) =>
    let (inner, _) ← scan (some v) false rest {}
    let inner ← inner.settle
    let task ← task v inner
    -- The last value in front of the verb is checked only now.
    let outer ← outer.settle
    return { globals := globals outer inner, task }

end CommandLine

end CellMachine
