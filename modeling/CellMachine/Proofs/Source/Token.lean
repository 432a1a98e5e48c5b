import CellMachine.Source.Token
import CellMachine.Text.Fields
import Mathlib.Data.List.Forall2

/-!
# Scanning what was written

This module proves which tokens a written text scans to. `Scans written token` says that `written`
adds exactly the characters of `token` to the token in front of whatever follows, which makes it
closed under concatenation. Ordinary characters scan to themselves, and a quoted text scans to the
text, whatever characters it is made of.

A line of such pieces with a space between them scans to one line of tokens (`scan_joined`), and
lines with a line feed between them to the lines of a sheet; what is written between quotes is thus
scanned back as it was (`lines_written_quoted`). Two texts one below the other scan to the lines of
the one and those of the other, if the upper one does not end between quotes (`lines_append`).
-/

namespace CellMachine.Source

namespace Sheet

def prepend (cs : List Char) (sheet : Sheet) : Sheet := cs.foldr push sheet

@[simp] theorem prepend_nil (sheet : Sheet) : prepend [] sheet = sheet := rfl

@[simp] theorem prepend_cons (c : Char) (cs : List Char) (sheet : Sheet) :
    prepend (c :: cs) sheet = (prepend cs sheet).push c := rfl

theorem prepend_append (cs cs' : List Char) (sheet : Sheet) :
    prepend (cs ++ cs') sheet = prepend cs (prepend cs' sheet) :=
  List.foldr_append

theorem prepend_line (cs token : List Char) (tokens : List (List Char)) (sheet : Sheet) :
    prepend cs ((token :: tokens) :: sheet) = ((cs ++ token) :: tokens) :: sheet := by
  induction cs with
  | nil => rfl
  | cons c cs ih => rw [prepend_cons, ih, push, List.cons_append]

end Sheet

/-! ## Pieces of tokens -/

/-- Whether a character means nothing but itself outside of quotes and comments. -/
def IsOrdinary (c : Char) : Prop := c ≠ '"' ∧ c ≠ '\'' ∧ c ≠ ' ' ∧ c ≠ '\n' ∧ c ≠ '/'

instance : DecidablePred IsOrdinary := fun c =>
  inferInstanceAs (Decidable (c ≠ '"' ∧ c ≠ '\'' ∧ c ≠ ' ' ∧ c ≠ '\n' ∧ c ≠ '/'))

/-- The text `written` scans to the characters `token`, whatever follows it. -/
def Scans (written token : List Char) : Prop :=
  ∀ rest, scan .plain (written ++ rest) = (scan .plain rest).prepend token

theorem scans_nil : Scans [] [] := by
  intro rest
  rfl

theorem Scans.append {w w' t t' : List Char} (h : Scans w t) (h' : Scans w' t') :
    Scans (w ++ w') (t ++ t') := by
  intro rest
  rw [List.append_assoc, h, h', Sheet.prepend_append]

theorem scan_plain_ordinary {c : Char} (h : IsOrdinary c) (rest : List Char) :
    scan .plain (c :: rest) = (scan .plain rest).push c := by
  rcases h with ⟨hdouble, hsingle, hspace, hfeed, hslash⟩
  rw [scan.eq_def]
  split <;> simp_all

theorem scans_ordinary {cs : List Char} (h : ∀ c ∈ cs, IsOrdinary c) : Scans cs cs := by
  induction cs with
  | nil => exact scans_nil
  | cons c cs ih =>
    intro rest
    obtain ⟨hc, hcs⟩ := List.forall_mem_cons.1 h
    rw [List.cons_append, scan_plain_ordinary hc, ih hcs, Sheet.prepend_cons]

theorem scan_quoted_mark (mark : Char) (rest : List Char) :
    scan (.quoted mark) (mark :: rest) = scan .plain rest := by
  rw [scan.eq_def]
  simp

theorem scan_quoted_escape {mark : Char} (h : mark ≠ '\\') (c : Char) (rest : List Char) :
    scan (.quoted mark) ('\\' :: c :: rest) = (scan (.quoted mark) rest).push c := by
  rw [scan.eq_def]
  simp [h.symm]

theorem scan_quoted_literal {mark c : Char} (hmark : c ≠ mark) (hslash : c ≠ '\\')
    (rest : List Char) :
    scan (.quoted mark) (c :: rest) = (scan (.quoted mark) rest).push c := by
  rw [scan.eq_def]
  simp [hmark, hslash]

theorem scan_quoted_body (text rest : List Char) :
    scan (.quoted '\'') (text.flatMap (fun c => if c = '\\' ∨ c = '\'' then ['\\', c] else [c]) ++
      '\'' :: rest) = (scan .plain rest).prepend text := by
  induction text with
  | nil => exact scan_quoted_mark '\'' rest
  | cons c text ih =>
    rw [List.flatMap_cons, List.append_assoc, Sheet.prepend_cons, ← ih]
    by_cases hc : c = '\\' ∨ c = '\''
    · rw [if_pos hc]
      exact scan_quoted_escape (by decide) c _
    · obtain ⟨hslash, hquote⟩ := not_or.1 hc
      rw [if_neg hc]
      exact scan_quoted_literal hquote hslash _

/-- Quoting protects every character, and the quotes themselves are dropped. -/
theorem scans_quoted (text : List Char) : Scans (quoted text) text := by
  intro rest
  -- A quote opens the body, and the next one that is not escaped closes it.
  have hopen : ∀ cs, scan .plain ('\'' :: cs) = scan (.quoted '\'') cs := by
    intro cs
    simp [scan]
  rw [quoted, List.cons_append, List.cons_append, List.append_assoc, List.singleton_append, hopen,
    scan_quoted_body]

/-! ## Lines -/

theorem scan_feed (rest : List Char) :
    scan .plain ('\n' :: rest) = [[]] :: scan .plain rest := by
  simp [scan, Sheet.breakLine]

/-- Pieces with a space between them scan to one line of tokens, if the text after them begins with
the end of a token. -/
theorem scan_joined {ws ts : List (List Char)} (hne : ws ≠ []) (h : List.Forall₂ Scans ws ts)
    {rest : List Char} {sheet : Sheet} (hrest : scan .plain rest = [[]] :: sheet) :
    scan .plain (Text.joined ' ' ws ++ rest) = ts :: sheet := by
  induction h with
  | nil => exact absurd rfl hne
  | @cons w t ws ts hw hws ih =>
    cases hws with
    | nil => rw [Text.joined, hw, hrest, Sheet.prepend_line, List.append_nil]
    | cons hw' hws =>
      have hspace : ∀ cs, scan .plain (' ' :: cs) = (scan .plain cs).breakToken := by
        intro cs
        simp [scan]
      rw [Text.joined, List.append_assoc, List.cons_append, hw, hspace, ih (List.cons_ne_nil _ _),
        Sheet.breakToken, Sheet.prepend_line, List.append_nil]
      exact List.cons_ne_nil _ _

theorem scan_line {α : Type} {w t : List Char} (h : Scans w t) (f g : α → List Char) {l : List α}
    (hl : ∀ a ∈ l, Scans (f a) (g a)) (rest : List Char) :
    scan .plain (w ++ (l.flatMap fun a => ' ' :: f a) ++ '\n' :: rest) =
      (t :: l.map g) :: scan .plain rest := by
  have hpieces : List.Forall₂ Scans (w :: l.map f) (t :: l.map g) := by
    refine .cons h ?_
    rw [List.forall₂_map_left_iff, List.forall₂_map_right_iff, List.forall₂_same]
    exact hl
  have hline := scan_joined (List.cons_ne_nil _ _) hpieces (scan_feed rest)
  rwa [Text.joined_cons, List.flatMap_map] at hline

/-- Lines of such pieces with a line feed between them scan to the lines of their tokens. -/
theorem scan_joined_lines {ws ts : List (List (List Char))} (hne : ws ≠ [])
    (hlines : ∀ line ∈ ws, line ≠ []) (h : List.Forall₂ (List.Forall₂ Scans) ws ts) :
    scan .plain (Text.joined '\n' (ws.map (Text.joined ' '))) = ts := by
  induction h with
  | nil => exact absurd rfl hne
  | @cons w t ws ts hw hws ih =>
    obtain ⟨hline, hlines⟩ := List.forall_mem_cons.1 hlines
    cases hws with
    | nil =>
      have hend : scan .plain [] = [[]] :: [] := rfl
      have hlast := scan_joined hline hw hend
      rw [List.append_nil] at hlast
      exact hlast
    | cons hw' hws =>
      have hbelow := ih (List.cons_ne_nil _ _) hlines
      rw [List.map_cons, List.map_cons, Text.joined, scan_joined hline hw (scan_feed _)]
      · rw [← List.map_cons, hbelow]
      · exact List.cons_ne_nil _ _

/-- The text of a sheet of items, each of which is written as a token: a space between the tokens of
a line, and a line feed between lines. -/
def written {α : Type} (write : α → List Char) (sheet : List (List α)) : String :=
  String.ofList (Text.joined '\n' (sheet.map fun line => Text.joined ' ' (line.map write)))

theorem lines_written_of_scans {α : Type} {write token : α → List Char} {sheet : List (List α)}
    (hne : sheet ≠ []) (hlines : ∀ line ∈ sheet, line ≠ [])
    (h : ∀ line ∈ sheet, ∀ a ∈ line, Scans (write a) (token a)) :
    lines (written write sheet) =
      sheet.map fun line => line.map fun a => String.ofList (token a) := by
  have hpieces : List.Forall₂ (List.Forall₂ Scans) (sheet.map (List.map write))
      (sheet.map (List.map token)) := by
    rw [List.forall₂_map_left_iff, List.forall₂_map_right_iff, List.forall₂_same]
    intro line hline
    rw [List.forall₂_map_left_iff, List.forall₂_map_right_iff, List.forall₂_same]
    exact h line hline
  have hscan := scan_joined_lines (by simpa using hne) (by simpa using hlines) hpieces
  rw [List.map_map] at hscan
  rw [lines, written, String.toList_ofList]
  change (scan .plain (Text.joined '\n' (sheet.map (Text.joined ' ' ∘ List.map write)))).map _ = _
  rw [hscan, List.map_map]
  congr 1
  funext line
  exact List.map_map

/-- Quoted texts are scanned back, whatever characters they are made of, and so are quoted texts
that have a letter, or another ordinary character, in front of the quotes. -/
theorem lines_written_quoted :
    (∀ sheet : List (List String), sheet ≠ [] → (∀ line ∈ sheet, line ≠ []) →
      lines (written (fun s => quoted s.toList) sheet) = sheet) ∧
    ∀ sheet : List (List (Char × String)), sheet ≠ [] → (∀ line ∈ sheet, line ≠ []) →
      (∀ line ∈ sheet, ∀ a ∈ line, IsOrdinary a.1) →
      lines (written (fun a => a.1 :: quoted a.2.toList) sheet) =
        sheet.map fun line => line.map fun a => String.ofList (a.1 :: a.2.toList) := by
  refine ⟨?_, ?_⟩
  · intro sheet hne hlines
    rw [lines_written_of_scans hne hlines fun _ _ s _ => scans_quoted s.toList]
    simp
  · intro sheet hne hlines htags
    refine lines_written_of_scans hne hlines fun line hline a ha => ?_
    have htag : Scans [a.1] [a.1] := by
      refine scans_ordinary fun c hc => ?_
      rw [List.mem_singleton.1 hc]
      exact htags line hline a ha
    exact htag.append (scans_quoted a.2.toList)

/-- What means something to a scan is between quotes nothing but itself. -/
theorem lines_written_quoted_marks :
    lines (written (fun s => quoted s.toList) [["", "// it's \"so\""], ["\\", "a \n b"]]) =
        [["", "// it's \"so\""], ["\\", "a \n b"]] ∧
      lines (written (fun a => a.1 :: quoted a.2.toList) [[('s', "'"), ('b', "")], [('s', "//")]]) =
        [["s'", "b"], ["s//"]] :=
  ⟨lines_written_quoted.1 _ (by decide) (by decide),
    lines_written_quoted.2 [[('s', "'"), ('b', "")], [('s', "//")]] (by decide) (by decide)
      (by decide)⟩

/-! ## Texts one below the other -/

def Mode.isQuoted : Mode → Bool
  | .quoted _ => true
  | .plain | .comment => false

def endMode : Mode → (text : List Char) → Mode
  | mode, [] => mode
  | .comment, c :: rest => endMode (if c = '\n' then .plain else .comment) rest
  | .quoted mark, c :: rest =>
    if c = mark then endMode .plain rest
    else if c = '\\' then
      match rest with
      | [] => .quoted mark
      | _ :: rest => endMode (.quoted mark) rest
    else endMode (.quoted mark) rest
  | .plain, '/' :: '/' :: rest => endMode .comment rest
  | .plain, c :: rest => endMode (if c = '"' ∨ c = '\'' then .quoted c else .plain) rest

namespace Sheet

theorem push_ne_nil (c : Char) (sheet : Sheet) : sheet.push c ≠ [] := by
  unfold push
  split <;> exact List.cons_ne_nil _ _

theorem breakToken_ne_nil (sheet : Sheet) : sheet.breakToken ≠ [] := by
  unfold breakToken
  split <;> exact List.cons_ne_nil _ _

theorem push_append {sheet : Sheet} (h : sheet ≠ []) (c : Char) (sheet' : Sheet) :
    push c (sheet ++ sheet') = sheet.push c ++ sheet' := by
  rcases sheet with _ | ⟨_ | ⟨token, tokens⟩, sheet⟩
  · exact absurd rfl h
  · rfl
  · rfl

theorem breakToken_append {sheet : Sheet} (h : sheet ≠ []) (sheet' : Sheet) :
    breakToken (sheet ++ sheet') = sheet.breakToken ++ sheet' := by
  cases sheet with
  | nil => exact absurd rfl h
  | cons line sheet => rfl

end Sheet

/-- Every text scans to at least one line. -/
theorem scan_ne_nil (mode : Mode) (text : List Char) : scan mode text ≠ [] := by
  fun_induction scan mode text with
  | case1 mode => exact List.cons_ne_nil _ _
  | case2 rest ih => exact List.cons_ne_nil _ _
  | case3 c rest hc ih => exact Sheet.push_ne_nil _ _
  | case4 mark rest ih => exact ih
  | case5 mark hc => exact List.cons_ne_nil _ _
  | case6 mark hc c rest ih => exact Sheet.push_ne_nil _ _
  | case7 mark c rest hmark hc ih => exact Sheet.push_ne_nil _ _
  | case8 rest ih => exact Sheet.push_ne_nil _ _
  | case9 c rest hc hquote ih => exact ih
  | case10 rest ih => exact Sheet.breakToken_ne_nil _
  | case11 rest ih => exact List.cons_ne_nil _ _
  | case12 c rest hcomment hquote hspace hfeed ih => exact Sheet.push_ne_nil _ _

theorem scan_plain_cons {c : Char} {rest : List Char}
    (h : ∀ rest', c = '/' → rest ≠ '/' :: rest') : scan .plain (c :: rest) =
      if c = '"' ∨ c = '\'' then scan (.quoted c) rest
      else if c = ' ' then (scan .plain rest).breakToken
      else if c = '\n' then (scan .plain rest).breakLine
      else (scan .plain rest).push c := by
  rw [scan.eq_def]
  split <;> simp_all

/-- A line feed that is not between quotes ends a line, and what comes after it is scanned as if it
stood alone. -/
theorem scan_append_line {mode : Mode} {text : List Char}
    (h : (endMode mode text).isQuoted = false) (rest : List Char) :
    scan mode (text ++ '\n' :: rest) = scan mode text ++ scan .plain rest := by
  fun_induction endMode mode text with
  | case1 mode =>
    cases mode with
    | quoted mark => cases h
    | plain | comment => simp [scan, Sheet.breakLine, Sheet.blank]
  | case2 c text ih =>
    rw [List.cons_append, scan, scan]
    by_cases hc : c = '\n'
    · rw [if_pos hc] at ih h
      rw [if_pos hc, if_pos hc, ih h]
      rfl
    · rw [if_neg hc] at ih h
      rw [if_neg hc, if_neg hc, ih h, Sheet.push_append (scan_ne_nil _ _)]
  | case3 mark text ih =>
    rw [List.cons_append, scan_quoted_mark, scan_quoted_mark, ih h]
  | case4 => cases h
  | case5 mark c text hmark ih =>
    have hescape : mark ≠ '\\' := Ne.symm hmark
    rw [List.cons_append, List.cons_append, scan_quoted_escape hescape, scan_quoted_escape hescape,
      ih h, Sheet.push_append (scan_ne_nil _ _)]
  | case6 mark c text hmark hc ih =>
    rw [List.cons_append, scan_quoted_literal hmark hc, scan_quoted_literal hmark hc, ih h,
      Sheet.push_append (scan_ne_nil _ _)]
  | case7 text ih =>
    rw [List.cons_append, List.cons_append, scan, scan, ih h, Sheet.push_append (scan_ne_nil _ _),
      Sheet.push_append (Sheet.push_ne_nil _ _)]
  | case8 c text hc ih =>
    -- A slash at the end of the text begins no comment, since a line feed comes after it.
    have hcomment : ∀ rest', c = '/' → text ++ '\n' :: rest ≠ '/' :: rest' := by
      rintro rest' rfl hrest'
      cases text with
      | nil => cases hrest'
      | cons c' text =>
        cases hrest'
        exact hc text rfl rfl
    rw [List.cons_append, scan_plain_cons hcomment, scan_plain_cons hc]
    by_cases hquote : c = '"' ∨ c = '\''
    · rw [if_pos hquote] at ih h
      rw [if_pos hquote, if_pos hquote, ih h]
    · rw [if_neg hquote] at ih h
      rw [if_neg hquote, if_neg hquote, ih h, Sheet.push_append (scan_ne_nil _ _),
        Sheet.breakToken_append (scan_ne_nil _ _)]
      split
      · rfl
      · split <;> rfl

/-- The lines of two texts, one below the other, are those of the one and those of the other. -/
theorem lines_append {a : String} (h : (endMode .plain a.toList).isQuoted = false) (b : String) :
    lines (a ++ "\n" ++ b) = lines a ++ lines b := by
  have htext : (a ++ "\n" ++ b).toList = a.toList ++ '\n' :: b.toList := by simp
  rw [lines, htext, scan_append_line h, List.map_append]
  rfl

end CellMachine.Source
