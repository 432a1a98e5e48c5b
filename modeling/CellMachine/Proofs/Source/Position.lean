import CellMachine.Proofs.Source.Compile
import Mathlib.Algebra.Ring.Nat

/-!
# Where faulty lines stand

This module proves how the number that is reported with a fault is related to the place of the
faulty line in the text. A line is scanned from a row of the text, which ends at the first line feed
outside of quotes (`exists_row`). The place of a fault is a `FaultyRow`, and the number counts the
rows above it. It counts the line feeds above it only if no row has one of its own: a row goes on
behind a line feed that stands between quotes.
-/

namespace CellMachine.Source

/-! ## Rows -/

/-- A text that is scanned to a single line, and does not end between quotes. -/
structure IsRow (row : String) : Prop where
  closed : (endMode .plain row.toList).isQuoted = false
  line : (lines row).length = 1

/-- The text of rows one below the other, with a line feed at the end of each. -/
def stacked : (rows : List String) → String
  | [] => ""
  | row :: rows => row ++ "\n" ++ stacked rows

theorem count_stacked (rows : List String) : (stacked rows).toList.count '\n' =
    rows.length + (rows.map fun row => row.toList.count '\n').sum := by
  induction rows with
  | nil => rfl
  | cons row rows ih =>
    have hfeed : "\n".toList.count '\n' = 1 := rfl
    rw [stacked, String.toList_append, String.toList_append, List.count_append, List.count_append,
      ih, hfeed, List.map_cons, List.sum_cons, List.length_cons]
    omega

/-- The line feeds are as many as the rows exactly if no row has one of its own. -/
theorem count_stacked_eq_iff {rows : List String} :
    (stacked rows).toList.count '\n' = rows.length ↔ ∀ row ∈ rows, '\n' ∉ row.toList := by
  have hsum : (rows.map fun row => row.toList.count '\n').sum = 0 ↔
      ∀ row ∈ rows, '\n' ∉ row.toList := by
    rw [List.sum_eq_zero_iff_forall_eq_nat, List.forall_mem_map]
    simp only [List.count_eq_zero]
  rw [← hsum, count_stacked]
  omega

/-! ## The first row -/

theorem Sheet.length_push {sheet : Sheet} (h : sheet ≠ []) (c : Char) :
    (sheet.push c).length = sheet.length := by
  rcases sheet with _ | ⟨_ | ⟨token, tokens⟩, sheet⟩
  · exact absurd rfl h
  · rfl
  · rfl

theorem Sheet.length_breakToken {sheet : Sheet} (h : sheet ≠ []) :
    sheet.breakToken.length = sheet.length := by
  cases sheet with
  | nil => exact absurd rfl h
  | cons line sheet => rfl

theorem endMode_quoted_mark (mark : Char) (rest : List Char) :
    endMode (.quoted mark) (mark :: rest) = endMode .plain rest := by
  rw [endMode.eq_def]
  simp

theorem endMode_quoted_escape {mark : Char} (h : mark ≠ '\\') (c : Char) (rest : List Char) :
    endMode (.quoted mark) ('\\' :: c :: rest) = endMode (.quoted mark) rest := by
  rw [endMode.eq_def]
  simp [h.symm]

theorem endMode_quoted_literal {mark c : Char} (hmark : c ≠ mark) (hslash : c ≠ '\\')
    (rest : List Char) : endMode (.quoted mark) (c :: rest) = endMode (.quoted mark) rest := by
  rw [endMode.eq_def]
  simp [hmark, hslash]

theorem endMode_plain_cons {c : Char} {rest : List Char}
    (h : ∀ rest', c = '/' → rest ≠ '/' :: rest') : endMode .plain (c :: rest) =
      endMode (if c = '"' ∨ c = '\'' then .quoted c else .plain) rest := by
  rw [endMode.eq_def]
  split <;> simp_all

/-- The text is scanned to a single line, or it begins with a row and a line feed. -/
def Begins (mode : Mode) (text : List Char) : Prop :=
  (scan mode text).length = 1 ∨ ∃ row rest, text = row ++ '\n' :: rest ∧
    (endMode mode row).isQuoted = false ∧ (scan mode row).length = 1

/-- Characters that end no line may stand in front of a row. -/
theorem Begins.after {mode mode' : Mode} {w text : List Char}
    (hstep : ∀ t, t <+: text → (scan mode (w ++ t)).length = (scan mode' t).length ∧
      endMode mode (w ++ t) = endMode mode' t)
    (h : Begins mode' text) : Begins mode (w ++ text) := by
  rcases h with hline | ⟨row, rest, rfl, hclosed, hline⟩
  · exact .inl ((hstep text (List.prefix_refl _)).1.trans hline)
  · rcases hstep row (List.prefix_append _ _) with ⟨hscan, hend⟩
    refine .inr ⟨w ++ row, rest, (List.append_assoc _ _ _).symm, ?_, hscan.trans hline⟩
    rw [hend]
    exact hclosed

/-- Outside of quotes the next character may decide what a slash means, and a row has the same next
character as the text. -/
theorem not_comment_of_prefix {c : Char} {rest t : List Char}
    (h : ∀ rest', c = '/' → rest = '/' :: rest' → False) (ht : t <+: rest) :
    ∀ t', c = '/' → t ≠ '/' :: t' := by
  rintro t' hc rfl
  obtain ⟨u, rfl⟩ := ht
  exact h _ hc rfl

theorem begins (mode : Mode) (text : List Char) : Begins mode text := by
  fun_induction scan mode text with
  | case1 mode => exact .inl rfl
  | case2 rest ih => exact .inr ⟨[], rest, rfl, rfl, rfl⟩
  | case3 c rest hc ih =>
    refine Begins.after (w := [c]) (fun t _ => ⟨?_, ?_⟩) ih
    · rw [List.singleton_append, scan, if_neg hc, Sheet.length_push (scan_ne_nil _ _)]
    · rw [List.singleton_append, endMode, if_neg hc]
  | case4 mark rest ih =>
    refine Begins.after (w := [mark]) (fun t _ => ⟨?_, ?_⟩) ih
    · rw [List.singleton_append, scan_quoted_mark]
    · exact endMode_quoted_mark mark t
  | case5 mark hmark =>
    refine .inl ?_
    rw [scan.eq_def]
    simp [hmark, Sheet.blank]
  | case6 mark c rest hmark ih =>
    refine Begins.after (w := ['\\', c]) (fun t _ => ⟨?_, ?_⟩) ih
    · exact (congrArg List.length (scan_quoted_escape (Ne.symm hmark) c t)).trans
        (Sheet.length_push (scan_ne_nil _ _) c)
    · exact endMode_quoted_escape (Ne.symm hmark) c t
  | case7 mark c rest hmark hc ih =>
    refine Begins.after (w := [c]) (fun t _ => ⟨?_, ?_⟩) ih
    · exact (congrArg List.length (scan_quoted_literal hmark hc t)).trans
        (Sheet.length_push (scan_ne_nil _ _) c)
    · exact endMode_quoted_literal hmark hc t
  | case8 rest ih =>
    refine Begins.after (w := ['/', '/']) (fun t _ => ⟨?_, ?_⟩) ih
    · rw [List.cons_append, List.singleton_append, scan, Sheet.length_push (Sheet.push_ne_nil _ _),
        Sheet.length_push (scan_ne_nil _ _)]
    · rw [List.cons_append, List.singleton_append, endMode]
  | case9 c rest hcomment hquote ih =>
    refine Begins.after (w := [c]) (fun t ht => ?_) ih
    have hc := not_comment_of_prefix hcomment ht
    rw [List.singleton_append, scan_plain_cons hc, endMode_plain_cons hc, if_pos hquote,
      if_pos hquote]
    exact ⟨rfl, rfl⟩
  | case10 rest hcomment hquote ih =>
    refine Begins.after (w := [' ']) (fun t ht => ?_) ih
    have hc := not_comment_of_prefix hcomment ht
    rw [List.singleton_append, scan_plain_cons hc, endMode_plain_cons hc, if_neg hquote,
      if_neg hquote, if_pos rfl, Sheet.length_breakToken (scan_ne_nil _ _)]
    exact ⟨rfl, rfl⟩
  | case11 rest => exact .inr ⟨[], rest, rfl, rfl, rfl⟩
  | case12 c rest hcomment hquote hspace hfeed ih =>
    refine Begins.after (w := [c]) (fun t ht => ?_) ih
    have hc := not_comment_of_prefix hcomment ht
    rw [List.singleton_append, scan_plain_cons hc, endMode_plain_cons hc, if_neg hquote,
      if_neg hquote, if_neg hspace, if_neg hfeed, Sheet.length_push (scan_ne_nil _ _)]
    exact ⟨rfl, rfl⟩

/-- A text is scanned to a single line, or a row of it ends at its first line feed outside of
quotes. -/
theorem exists_row (text : String) : (lines text).length = 1 ∨
    ∃ row rest, text = row ++ "\n" ++ rest ∧ IsRow row := by
  rcases begins .plain text.toList with hline | ⟨row, rest, htext, hclosed, hline⟩
  · exact .inl ((List.length_map _).trans hline)
  · refine .inr ⟨String.ofList row, String.ofList rest, ?_, ?_, ?_⟩
    · apply String.toList_inj.1
      simp [htext]
    · rwa [String.toList_ofList]
    · rw [lines, String.toList_ofList, List.length_map]
      exact hline

/-! ## The faulty row -/

/-- What is wrong with a line, as it is reported when nothing stands above the line. -/
def CompileError.alone (e : CompileError) : CompileError := { e with line := 0, sourceLine := 1 }

theorem alone_of_line {text : String} (hline : (lines text).length = 1) {e : CompileError}
    (h : (compile text).error = some e) : e.alone = e := by
  obtain ⟨line, hlines⟩ := List.length_eq_one_iff.1 hline
  rw [compile, instructionLines, hlines] at h
  simp only [List.zipIdx_cons, List.zipIdx_nil, List.filterMap_cons, List.filterMap_nil] at h
  by_cases hholds : holdsInstruction (line.filter (· != "")) = true
  · simp only [hholds, if_true, compileFrom] at h
    cases hline : instruction 0 (line.filter (· != "")) with
    | ok i => simp [hline] at h
    | error cause =>
      simp only [hline, Option.some.injEq] at h
      rw [← h]
      rfl
  · simp [hholds, compileFrom] at h

theorem error_compile_append {a : String} (ha : IsRow a) (b : String) :
    (compile (a ++ "\n" ++ b)).error =
      (compile a).error.or ((compile b).error.map fun e => e.offset (compile a).size 1) := by
  rw [compile_append_eq ha.closed, ha.line, Compilation.andThen]
  cases h : (compile a).error with
  | some e =>
    rw [Option.some_or]
    exact h
  | none => rfl

/-- The text has the fault `e` in the row `row`: the rows `above` it compile, and the row alone has
the fault as it is when nothing stands above it. -/
structure FaultyRow (text : String) (e : CompileError) (above : List String) (row : String) :
    Prop where
  rows : ∀ row ∈ above, IsRow row
  line : (lines row).length = 1
  whole : ∃ below, text = stacked above ++ row ++ below ∧
    (below = "" ∨ IsRow row ∧ ∃ rest, below = "\n" ++ rest)
  compiles : (compile (stacked above)).error = none
  fails : (compile row).error = some e.alone

theorem FaultyRow.below {text row first : String} {e : CompileError} {above : List String}
    (h : FaultyRow text e above row) (hfirst : IsRow first)
    (hcompiles : (compile first).error = none) :
    FaultyRow (first ++ "\n" ++ text) (e.offset (compile first).size 1) (first :: above) row := by
  obtain ⟨below, htext, hbelow⟩ := h.whole
  refine ⟨List.forall_mem_cons.2 ⟨hfirst, h.rows⟩, h.line, ⟨below, ?_, hbelow⟩, ?_, h.fails⟩
  · rw [htext, stacked, String.append_assoc, String.append_assoc, String.append_assoc,
      String.append_assoc, String.append_assoc]
  · rw [stacked, error_compile_append hfirst, hcompiles, h.compiles]
    rfl

/-- A fault stands in a row. -/
theorem exists_faultyRow {text : String} {e : CompileError} (h : (compile text).error = some e) :
    ∃ above row, FaultyRow text e above row := by
  -- Each row takes one of the lines away.
  induction hlines : (lines text).length generalizing text e with
  | zero =>
    have hne : lines text ≠ [] := by
      intro hnil
      exact scan_ne_nil _ _ (List.map_eq_nil_iff.1 hnil)
    exact absurd (List.length_eq_zero_iff.1 hlines) hne
  | succ n ih =>
    rcases exists_row text with hline | ⟨first, rest, rfl, hfirst⟩
    · refine ⟨[], text, ⟨by simp, hline, ⟨"", ?_, .inl rfl⟩, rfl, ?_⟩⟩
      · simp [stacked]
      · rw [alone_of_line hline h, h]
    · rw [error_compile_append hfirst] at h
      cases hcompiles : (compile first).error with
      | some e' =>
        rw [hcompiles, Option.some_or] at h
        obtain rfl := Option.some.inj h
        refine ⟨[], first, ⟨by simp, hfirst.line, ⟨"\n" ++ rest, ?_, ?_⟩, rfl, ?_⟩⟩
        · simp [stacked, String.append_assoc]
        · exact .inr ⟨hfirst, rest, rfl⟩
        · rw [alone_of_line hfirst.line hcompiles, hcompiles]
      | none =>
        rw [hcompiles, Option.none_or] at h
        obtain ⟨e', he', rfl⟩ := Option.map_eq_some_iff.1 h
        have hrest : (lines rest).length = n := by
          rw [lines_append hfirst.closed, List.length_append, hfirst.line] at hlines
          omega
        obtain ⟨above, row, hrow⟩ := ih he' hrest
        exact ⟨first :: above, row, hrow.below hfirst hcompiles⟩

/-- A fault is reported with the number of its row. -/
theorem FaultyRow.sourceLine {text row : String} {e : CompileError} {above : List String}
    (h : FaultyRow text e above row) (he : (compile text).error = some e) :
    e.sourceLine = above.length + 1 := by
  obtain ⟨below, rfl, hbelow⟩ := h.whole
  induction above generalizing e with
  | nil =>
    -- Whatever stands below, the fault is that of the row alone.
    have halone : (compile (stacked [] ++ row ++ below)).error = some e.alone := by
      have htext : stacked [] ++ row = row := by simp [stacked]
      rw [htext]
      rcases hbelow with rfl | ⟨hrow, rest, rfl⟩
      · rw [String.append_empty]
        exact h.fails
      · rw [← String.append_assoc, error_compile_append hrow, h.fails, Option.some_or]
    rw [halone] at he
    exact (congrArg CompileError.sourceLine (Option.some.inj he)).symm
  | cons first above ih =>
    obtain ⟨hfirst, hrows⟩ := List.forall_mem_cons.1 h.rows
    have htext : stacked (first :: above) ++ row ++ below =
        first ++ "\n" ++ (stacked above ++ row ++ below) := by
      simp only [stacked, String.append_assoc]
    have hcompiles := h.compiles
    rw [stacked, error_compile_append hfirst, Option.or_eq_none_iff, Option.map_eq_none_iff]
      at hcompiles
    rw [htext, error_compile_append hfirst, hcompiles.1, Option.none_or] at he
    obtain ⟨e', he', rfl⟩ := Option.map_eq_some_iff.1 he
    have hrow : FaultyRow (stacked above ++ row ++ below) e' above row :=
      ⟨hrows, h.line, ⟨below, rfl, hbelow⟩, hcompiles.2, h.fails⟩
    exact congrArg (· + 1) (ih hrow he')

/-- A fault stands in a row, and is reported with the number of this row, counted from one. Above
the row are as many line feeds as rows, and besides those that the rows have between their quotes.
So the number is one more than the number of line feeds above exactly if there are none of the
latter. -/
theorem sourceLine_eq {text : String} {e : CompileError} (h : (compile text).error = some e) :
    (∃ above row, FaultyRow text e above row) ∧
      ∀ above row, FaultyRow text e above row →
        e.sourceLine = above.length + 1 ∧
        (stacked above).toList.count '\n' + 1 =
          e.sourceLine + (above.map fun row => row.toList.count '\n').sum ∧
        (e.sourceLine = (stacked above).toList.count '\n' + 1 ↔
          ∀ row ∈ above, '\n' ∉ row.toList) := by
  refine ⟨exists_faultyRow h, fun above row hrow => ?_⟩
  have hnumber := hrow.sourceLine h
  refine ⟨hnumber, ?_, ?_⟩
  · rw [hnumber, count_stacked]
    omega
  · rw [hnumber, ← count_stacked_eq_iff]
    omega

/-- Three rows stand above the faulty one, the first of them with two line feeds of its own. -/
theorem sourceLine_eq_below_comment :
    (compile "2 s'a\n\nb' i0\n\n// it's\n7 x").error =
        some { line := 1, sourceLine := 4, tokens := ["7", "x"], cause := .unknownTag 'x' } ∧
      FaultyRow "2 s'a\n\nb' i0\n\n// it's\n7 x"
        { line := 1, sourceLine := 4, tokens := ["7", "x"], cause := .unknownTag 'x' }
        ["2 s'a\n\nb' i0", "", "// it's"] "7 x" ∧
      (stacked ["2 s'a\n\nb' i0", "", "// it's"]).toList.count '\n' + 1 = 4 + 2 := by
  have herror : (compile "2 s'a\n\nb' i0\n\n// it's\n7 x").error =
      some { line := 1, sourceLine := 4, tokens := ["7", "x"], cause := .unknownTag 'x' } := by
    decide +kernel
  have hrows : ∀ row ∈ ["2 s'a\n\nb' i0", "", "// it's"], IsRow row := by
    simp only [List.forall_mem_cons]
    refine ⟨?_, ?_, ?_, nofun⟩ <;> exact ⟨by decide +kernel, by decide +kernel⟩
  have hrow : FaultyRow "2 s'a\n\nb' i0\n\n// it's\n7 x"
      { line := 1, sourceLine := 4, tokens := ["7", "x"], cause := .unknownTag 'x' }
      ["2 s'a\n\nb' i0", "", "// it's"] "7 x" :=
    ⟨hrows, by decide +kernel, ⟨"", by decide +kernel, .inl rfl⟩, by decide +kernel,
      by decide +kernel⟩
  obtain ⟨-, hnumber⟩ := sourceLine_eq herror
  exact ⟨herror, hrow, (hnumber _ _ hrow).2.1⟩

/-- Below a row with a line feed between its quotes a fault is reported with a number that is too
small: two line feeds stand in front of the faulty row, and the number is two. -/
theorem sourceLine_below_quoted_feed :
    (compile "2 s'a\nb' i0\nx").error =
        some { line := 1, sourceLine := 2, tokens := ["x"], cause := .invalidOpcode "x" } ∧
      FaultyRow "2 s'a\nb' i0\nx"
        { line := 1, sourceLine := 2, tokens := ["x"], cause := .invalidOpcode "x" }
        ["2 s'a\nb' i0"] "x" ∧
      (stacked ["2 s'a\nb' i0"]).toList.count '\n' + 1 = 3 := by
  have hrow : IsRow "2 s'a\nb' i0" := ⟨by decide +kernel, by decide +kernel⟩
  refine ⟨by decide +kernel, ?_, by decide +kernel⟩
  exact ⟨by simpa using hrow, by decide +kernel, ⟨"", by decide +kernel, .inl rfl⟩,
    by decide +kernel, by decide +kernel⟩

end CellMachine.Source
