/-!
# Errors of host services

What reading input and working with files can fail with.
-/

namespace CellMachine

/-- The kinds of failed system operations that are told apart. -/
inductive IoKind where
  | notFound | permissionDenied | other
  deriving DecidableEq

structure IoError where
  kind : IoKind
  text : String
  deriving DecidableEq

namespace IoError

def noEntry : IoError := ⟨.notFound, "No such file or directory (os error 2)"⟩

def alreadyExists : IoError := ⟨.other, "File exists (os error 17)"⟩

def notDirectory : IoError := ⟨.other, "Not a directory (os error 20)"⟩

def isDirectory : IoError := ⟨.other, "Is a directory (os error 21)"⟩

def notText : IoError := ⟨.other, "stream did not contain valid UTF-8"⟩

end IoError

inductive Refusal where
  | restricted (action target : String)
  | outside (action name root : String)
  deriving DecidableEq

def Refusal.message : Refusal → String
  | .restricted action target => s!"{action} {target} (restricted mode)"
  | .outside action name root => s!"{action} {name}: name must stay inside {root}"

inductive ProviderError where
  | notFound (target : String)
  | permissionDenied (why : Refusal)
  | unsupported (operation : String)
  | endOfInput
  | io (target : String) (cause : IoError)
  deriving DecidableEq

namespace ProviderError

/-- The failure of a system operation on `target`; a missing target is a failure of its own. -/
def ofIo (target : String) (cause : IoError) : ProviderError :=
  if cause.kind = .notFound then notFound target else io target cause

def message : ProviderError → String
  | notFound target => s!"file not found: {target}"
  | permissionDenied why => s!"permission denied: {why.message}"
  | unsupported operation => s!"operation not supported: {operation}"
  | endOfInput => "end of input"
  | io target cause => s!"i/o error on {target}: {cause.text}"

/-- The system operation that a failure goes back to. -/
def cause? : ProviderError → Option IoError
  | io _ cause => some cause
  | _ => none

end ProviderError

/-- The rule of restricted services: nothing is changed unless the caller is superuser. -/
def checkAccess (restricted superuser : Bool) (action target : String) :
    Except ProviderError Unit :=
  if restricted && !superuser then .error (.permissionDenied (.restricted action target))
  else .ok ()

end CellMachine
