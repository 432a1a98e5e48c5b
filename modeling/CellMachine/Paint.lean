/-!
# Terminal colours

Texts that are shown on a terminal, with the escape sequences of their colours around them or
without any.
-/

namespace CellMachine

structure Paint where
  colored : Bool
  deriving DecidableEq

namespace Paint

/-- A text between the sequence that selects a colour and the one that ends it. -/
def apply (p : Paint) (code text : String) : String :=
  if p.colored then "\x1b[" ++ code ++ "m" ++ text ++ "\x1b[0m" else text

def green (p : Paint) (text : String) : String := p.apply "32" text

def red (p : Paint) (text : String) : String := p.apply "31" text

def yellow (p : Paint) (text : String) : String := p.apply "33" text

def bold (p : Paint) (text : String) : String := p.apply "1" text

def gray (p : Paint) (text : String) : String := p.apply "90" text

/-- A text with blanks in front, so that it has at least `width` characters. -/
def alignedRight (width : Nat) (text : String) : String :=
  String.ofList (List.replicate (width - text.length) ' ') ++ text

/-- The verb in front of a report, in bold green and aligned on the right of twelve columns. -/
def statusLabel (p : Paint) (verb : String) : String := p.apply "1;32" (alignedRight 12 verb)

end Paint

end CellMachine
