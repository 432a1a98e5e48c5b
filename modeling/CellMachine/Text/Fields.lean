/-!
# Fields

A text cut at every occurrence of a separator, and the fields joined again. There is always one
field more than there are separators, so the empty text is one empty field.
-/

namespace CellMachine.Text

def fields (separator : Char) : (cs : List Char) → List (List Char)
  | [] => [[]]
  | c :: rest =>
    if c = separator then [] :: fields separator rest
    else
      match fields separator rest with
      | [] => [[c]]
      | field :: more => (c :: field) :: more

def joined (separator : Char) : (parts : List (List Char)) → List Char
  | [] => []
  | [part] => part
  | part :: rest => part ++ separator :: joined separator rest

theorem joined_cons (separator : Char) (part : List Char) (parts : List (List Char)) :
    joined separator (part :: parts) = part ++ parts.flatMap (separator :: ·) := by
  induction parts generalizing part with
  | nil => rw [joined, List.flatMap_nil, List.append_nil]
  | cons next rest ih =>
    rw [joined, ih, List.flatMap_cons, List.cons_append]
    exact List.cons_ne_nil _ _

/-- The parts of `cs` before and after the first occurrence of `separator`. -/
def splitFirst (separator : Char) (cs : List Char) : Option (List Char × List Char) :=
  match cs.dropWhile (· != separator) with
  | [] => none
  | _ :: after => some (cs.takeWhile (· != separator), after)

end CellMachine.Text
