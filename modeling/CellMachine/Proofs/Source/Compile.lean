import CellMachine.Proofs.Source.Token
import CellMachine.Source.Compile
import Mathlib.Data.List.Forall2

/-!
# Compiling line by line

This module proves how a compilation is put together from those of two texts that stand one below
the other. The lines are those of the one text and those of the other (`lines_append`), and
compilation goes on where it has come to, unless it has met a fault.

Lines are numbered in two ways: an instruction by how many instructions stand before it, and a fault
also by how many lines do, blank ones and comments included.

The lines that are compiled are those before the first faulty one. The instructions are theirs
(`exists_of_getElem?_compileFrom`), and the fault is about the line behind them
(`fault_compileFrom`).
-/

namespace CellMachine

def Instruction.offset (i : Instruction) (n : Nat) : Instruction :=
  { i with line := i.line + UInt32.ofNat n }

namespace Source

/-- The fault with `n` more instructions and `k` more lines in front of it. -/
def CompileError.offset (e : CompileError) (n k : Nat) : CompileError :=
  { e with line := e.line + UInt32.ofNat n, sourceLine := e.sourceLine + k }

namespace Compilation

/-- The compilation with `n` more instructions and `k` more lines in front of it. -/
def offset (c : Compilation) (n k : Nat) : Compilation where
  instructions := c.instructions.map fun i => i.offset n
  error := c.error.map fun e => e.offset n k

/-- The compilation of further lines, which a fault keeps from being compiled. -/
def andThen (c c' : Compilation) : Compilation :=
  match c.error with
  | some _ => c
  | none => { c' with instructions := c.instructions ++ c'.instructions }

theorem andThen_of_error {c : Compilation} {e : CompileError} (h : c.error = some e)
    (c' : Compilation) : c.andThen c' = c := by
  rw [andThen, h]

theorem andThen_of_ok {c : Compilation} (h : c.error = none) (c' : Compilation) :
    c.andThen c' = { c' with instructions := c.instructions ++ c'.instructions } := by
  rw [andThen, h]

end Compilation

/-! ## Lines -/

theorem instruction_offset (line : UInt32) (n : Nat) (tokens : List String) :
    instruction (line + UInt32.ofNat n) tokens =
      (instruction line tokens).map fun i => i.offset n := by
  cases tokens with
  | nil => rfl
  | cons first rest =>
    rw [instruction, instruction]
    cases opcode first.toList with
    | error e => rfl
    | ok code =>
      cases rest.mapM fun token => argument token.toList with
      | error e => rfl
      | ok args => rfl

/-- Compilation depends on where the lines stand in nothing but their numbers. -/
theorem compileFrom_offset (line : UInt32) (ls : List (Nat × List String)) (n k : Nat) :
    compileFrom (line + UInt32.ofNat n) (ls.map fun l => (l.1 + k, l.2)) =
      (compileFrom line ls).offset n k := by
  induction ls generalizing line with
  | nil => rfl
  | cons first rest ih =>
    have hnext : line + UInt32.ofNat n + 1 = line + 1 + UInt32.ofNat n := by ac_rfl
    rw [List.map_cons, compileFrom, compileFrom, instruction_offset, hnext, ih]
    cases instruction line first.2 with
    | error e => rfl
    | ok i => rfl

theorem compileFrom_append (line : UInt32) (ls ls' : List (Nat × List String)) :
    compileFrom line (ls ++ ls') = (compileFrom line ls).andThen
      (compileFrom (line + UInt32.ofNat (compileFrom line ls).size) ls') := by
  induction ls generalizing line with
  | nil =>
    have hstart : line + UInt32.ofNat (compileFrom line []).size = line := UInt32.add_zero line
    rw [hstart]
    rfl
  | cons first rest ih =>
    rw [List.cons_append, compileFrom, compileFrom]
    cases instruction line first.2 with
    | error e => rfl
    | ok i =>
      -- The instruction that has been compiled counts for the lines after it.
      have hnext : line + 1 + UInt32.ofNat (compileFrom (line + 1) rest).size =
          line + UInt32.ofNat ((compileFrom (line + 1) rest).size + 1) := by
        rw [UInt32.ofNat_add]
        ac_rfl
      dsimp only
      rw [ih, hnext]
      rcases compileFrom (line + 1) rest with ⟨is, _ | e⟩
      · rfl
      · rfl

/-! ## How much is compiled -/

/-- Without a fault all lines are compiled, and with one not all. -/
theorem size_compileFrom (line : UInt32) (ls : List (Nat × List String)) :
    match (compileFrom line ls).error with
    | none => (compileFrom line ls).size = ls.length
    | some e => (compileFrom line ls).size < ls.length ∧
        e.line = line + UInt32.ofNat (compileFrom line ls).size := by
  induction ls generalizing line with
  | nil => rfl
  | cons first rest ih =>
    have hrest := ih (line + 1)
    rw [compileFrom]
    cases instruction line first.2 with
    | error e => exact ⟨Nat.succ_pos _, (UInt32.add_zero line).symm⟩
    | ok i =>
      dsimp only [Compilation.size, List.length_cons] at hrest ⊢
      cases h : (compileFrom (line + 1) rest).error with
      | none =>
        rw [h] at hrest
        exact congrArg (· + 1) hrest
      | some e =>
        rw [h] at hrest
        refine ⟨Nat.succ_lt_succ hrest.1, ?_⟩
        rw [hrest.2, UInt32.ofNat_add]
        ac_rfl

theorem mapM_eq_ok_iff {ε α β : Type} {f : α → Except ε β} {as : List α} {bs : List β} :
    as.mapM f = .ok bs ↔ List.Forall₂ (fun a b => f a = .ok b) as bs := by
  induction as generalizing bs with
  | nil => cases bs <;> simp [pure, Except.pure]
  | cons a as ih =>
    rw [List.mapM_cons]
    cases ha : f a with
    | error e => cases bs <;> simp [ha, bind, Except.bind]
    | ok b =>
      cases has : as.mapM f with
      | error e => cases bs <;> simp [ha, has, ← ih, bind, Except.bind]
      | ok bs' => cases bs <;> simp [ha, has, ← ih, bind, Except.bind, pure, Except.pure]

/-- The parts of an instruction are the tokens of its line, each read on its own. -/
theorem exists_of_instruction {line : UInt32} {tokens : List String} {i : Instruction}
    (h : instruction line tokens = .ok i) : i.line = line ∧ ∃ first rest, tokens = first :: rest ∧
      opcode first.toList = .ok i.opcode ∧
      List.Forall₂ (fun token a => argument token.toList = .ok a) rest i.args := by
  cases tokens with
  | nil => cases h
  | cons first rest =>
    rw [instruction] at h
    cases hcode : opcode first.toList with
    | error e => simp [hcode, bind, Except.bind] at h
    | ok code =>
      cases hargs : rest.mapM fun token => argument token.toList with
      | error e => simp [hcode, hargs, bind, Except.bind] at h
      | ok args =>
        obtain rfl : { line, opcode := code, args } = i := by
          simpa [hcode, hargs, bind, Except.bind, pure, Except.pure] using h
        exact ⟨rfl, first, rest, rfl, hcode, mapM_eq_ok_iff.1 hargs⟩

/-- The instructions are those of the lines, one for each in their order. -/
theorem exists_of_getElem?_compileFrom {line : UInt32} {k : Nat} {ls : List (Nat × List String)}
    {i : Instruction} (h : (compileFrom line ls).instructions[k]? = some i) :
    ∃ l, ls[k]? = some l ∧ instruction (line + UInt32.ofNat k) l.2 = .ok i := by
  induction ls generalizing line k with
  | nil => simp [compileFrom] at h
  | cons first rest ih =>
    rw [compileFrom] at h
    split at h
    · rename_i j hj
      cases k with
      | zero =>
        obtain rfl : j = i := by simpa using h
        exact ⟨first, rfl, (UInt32.add_zero line).symm ▸ hj⟩
      | succ k =>
        obtain ⟨l, hl, hi⟩ := ih h
        have hnext : line + UInt32.ofNat (k + 1) = line + 1 + UInt32.ofNat k := by
          rw [UInt32.ofNat_add]
          ac_rfl
        exact ⟨l, hl, hnext ▸ hi⟩
    · simp at h

/-- Compiled instructions are numbered in order. -/
theorem line_compileFrom {line k : Nat} {lines : List (Nat × List String)} {i : Instruction}
    (h : (compileFrom (UInt32.ofNat line) lines).instructions[k]? = some i) :
    i.line = UInt32.ofNat (line + k) := by
  obtain ⟨l, -, hi⟩ := exists_of_getElem?_compileFrom h
  rw [(exists_of_instruction hi).1, UInt32.ofNat_add]

/-! ## Faulty lines -/

/-- The tokens of a line are no instruction, whatever the number of the line. -/
def IsFaulty (tokens : List String) : Prop :=
  ∃ cause, ∀ line, instruction line tokens = .error cause

theorem instruction_eq_error {line : UInt32} {tokens : List String} {cause : TokenError}
    (h : instruction line tokens = .error cause) (line' : UInt32) :
    instruction line' tokens = .error cause := by
  have hline : line + UInt32.ofNat (line' - line).toNat = line' := by
    rw [UInt32.ofNat_toNat]
    grind
  rw [← hline, instruction_offset, h]
  rfl

/-- A fault is about the line behind those that have been compiled. -/
theorem fault_compileFrom {line : UInt32} {ls : List (Nat × List String)} {e : CompileError}
    (h : (compileFrom line ls).error = some e) :
    ls[(compileFrom line ls).size]? = some (e.sourceLine, e.tokens) ∧
      ∀ line', instruction line' e.tokens = .error e.cause := by
  induction ls generalizing line with
  | nil => simp [compileFrom] at h
  | cons first rest ih =>
    rw [compileFrom] at h ⊢
    split at h
    · exact ih h
    · rename_i cause hcause
      obtain rfl := Option.some.inj h
      exact ⟨rfl, instruction_eq_error hcause⟩

theorem not_isFaulty_of_lt {line : UInt32} {ls : List (Nat × List String)} {k : Nat}
    {l : Nat × List String} (hk : k < (compileFrom line ls).size) (hl : ls[k]? = some l) :
    ¬IsFaulty l.2 := by
  rintro ⟨cause, hcause⟩
  obtain ⟨l', hl', hi⟩ := exists_of_getElem?_compileFrom (List.getElem?_eq_getElem hk)
  cases hl.symm.trans hl'
  rw [hcause] at hi
  cases hi

/-- There is a fault if and only if one of the lines is faulty. -/
theorem isSome_error_compileFrom_iff {line : UInt32} {ls : List (Nat × List String)} :
    (compileFrom line ls).error.isSome ↔ ∃ l ∈ ls, IsFaulty l.2 := by
  have hsize := size_compileFrom line ls
  constructor
  · intro h
    obtain ⟨e, he⟩ := Option.isSome_iff_exists.1 h
    obtain ⟨hline, hcause⟩ := fault_compileFrom he
    exact ⟨_, List.mem_of_getElem? hline, e.cause, hcause⟩
  · rintro ⟨l, hl, hfaulty⟩
    obtain ⟨k, hk⟩ := List.getElem?_of_mem hl
    by_contra hnone
    rw [Option.not_isSome_iff_eq_none] at hnone
    rw [hnone] at hsize
    have hlt : k < (compileFrom line ls).size := by
      rw [hsize]
      exact (List.getElem?_eq_some_iff.1 hk).1
    exact not_isFaulty_of_lt hlt hk hfaulty

/-! ## Texts -/

/-- Of two texts one below the other, the lines of the lower one come later by those of the upper
one. -/
theorem instructionLines_append {a : String} (h : (endMode .plain a.toList).isQuoted = false)
    (b : String) : instructionLines (a ++ "\n" ++ b) =
      instructionLines a ++ (instructionLines b).map fun l => (l.1 + (lines a).length, l.2) := by
  unfold instructionLines
  rw [lines_append h, List.zipIdx_append, List.filterMap_append]
  congr 1
  -- Lines are counted from zero, but the induction is about every start.
  generalize 0 = start
  induction lines b generalizing start with
  | nil => rfl
  | cons line rest ih =>
    rw [List.zipIdx_cons, List.zipIdx_cons, List.filterMap_cons, List.filterMap_cons,
      Nat.add_right_comm, ih (start + 1)]
    by_cases hline : holdsInstruction (line.filter (· != "")) = true
    · simp only [hline, if_true, List.map_cons, Nat.add_right_comm]
    · simp only [hline, Bool.false_eq_true, if_false]

theorem compile_append_eq {a : String} (h : (endMode .plain a.toList).isQuoted = false)
    (b : String) : compile (a ++ "\n" ++ b) =
      (compile a).andThen ((compile b).offset (compile a).size (lines a).length) := by
  rw [compile, instructionLines_append h, compileFrom_append]
  change (compile a).andThen (compileFrom (0 + UInt32.ofNat (compile a).size) _) = _
  rw [compileFrom_offset]
  rfl

/-- The numbers of instructions and faults stay words as long as there are not more lines. -/
theorem toNat_line_lt {text : String} (h : (instructionLines text).length < UInt32.size) :
    (∀ i ∈ (compile text).instructions, i.line.toNat < (instructionLines text).length) ∧
      ∀ e ∈ (compile text).error, e.line.toNat < (instructionLines text).length := by
  have hsize := size_compileFrom 0 (instructionLines text)
  have hword {k : Nat} (hk : k < (instructionLines text).length) : (UInt32.ofNat k).toNat = k :=
    UInt32.toNat_ofNat_of_lt' (Nat.lt_trans hk h)
  refine ⟨?_, ?_⟩
  · intro i hi
    rcases List.getElem?_of_mem hi with ⟨k, hk⟩
    have hline : i.line = UInt32.ofNat (0 + k) := line_compileFrom hk
    have hlt : k < (compile text).size := (List.getElem?_eq_some_iff.1 hk).1
    have hle : (compile text).size ≤ (instructionLines text).length := by
      unfold compile
      split at hsize
      · exact Nat.le_of_eq hsize
      · exact Nat.le_of_lt hsize.1
    rw [hline, Nat.zero_add, hword (Nat.lt_of_lt_of_le hlt hle)]
    exact Nat.lt_of_lt_of_le hlt hle
  · intro e he
    have hfault : (compileFrom 0 (instructionLines text)).error = some e := he
    rw [hfault] at hsize
    rw [hsize.2, UInt32.zero_add, hword hsize.1]
    exact hsize.1

/-- Compilation of two texts one below the other goes line by line: the lines are those of the one
and those of the other; a fault in the upper text is all that there is to know; and below a text
without fault the lower one compiles as it does alone, with its numbers counted on. -/
theorem compile_append {a : String} (h : (endMode .plain a.toList).isQuoted = false) (b : String) :
    lines (a ++ "\n" ++ b) = lines a ++ lines b ∧
      ((instructionLines a).length + (instructionLines b).length < UInt32.size →
        ((compile a).error.isSome → compile (a ++ "\n" ++ b) = compile a) ∧
        ((compile a).error = none →
          (compile (a ++ "\n" ++ b)).instructions = (compile a).instructions ++
            (compile b).instructions.map (fun i => i.offset (compile a).size) ∧
          (∀ i ∈ (compile b).instructions,
            (i.offset (compile a).size).line.toNat = i.line.toNat + (compile a).size) ∧
          (compile (a ++ "\n" ++ b)).size = (compile a).size + (compile b).size ∧
          (compile (a ++ "\n" ++ b)).error =
            (compile b).error.map (fun e => e.offset (compile a).size (lines a).length) ∧
          ∀ e ∈ (compile b).error,
            (e.offset (compile a).size (lines a).length).line.toNat =
              e.line.toNat + (compile a).size)) := by
  have hcompile := compile_append_eq h b
  refine ⟨lines_append h b, fun hlines => ⟨?_, ?_⟩⟩
  · intro herror
    rcases Option.isSome_iff_exists.1 herror with ⟨e, he⟩
    rw [hcompile, Compilation.andThen_of_error he]
  · intro hok
    -- Without a fault the upper text has as many instructions as lines that hold one.
    have hsize : (compile a).size = (instructionLines a).length := by
      have hsize := size_compileFrom 0 (instructionLines a)
      have hnone : (compileFrom 0 (instructionLines a)).error = none := hok
      rwa [hnone] at hsize
    have hbelow : (instructionLines b).length < UInt32.size := by omega
    have hsum {line : UInt32} (hline : line.toNat < (instructionLines b).length) :
        (line + UInt32.ofNat (compile a).size).toNat = line.toNat + (compile a).size := by
      have hn : (compile a).size < UInt32.size := by omega
      rw [UInt32.toNat_add, UInt32.toNat_ofNat_of_lt' hn, Nat.mod_eq_of_lt]
      change _ < UInt32.size
      omega
    rcases toNat_line_lt hbelow with ⟨hinstructions, herror⟩
    rw [hcompile, Compilation.andThen_of_ok hok]
    refine ⟨rfl, fun i hi => hsum (hinstructions i hi), ?_, rfl, fun e he => hsum (herror e he)⟩
    simp [Compilation.size, Compilation.offset]

/-- A comment has nothing to say about quotes, and a fault is found below it where it stands. -/
theorem compile_append_comment :
    (endMode .plain "58\n\n// it's".toList).isQuoted = false ∧
      (compile ("58\n\n// it's" ++ "\n" ++ "58\n7 x")).instructions =
        [⟨0, 58, []⟩, ⟨1, 58, []⟩] ∧
      (compile ("58\n\n// it's" ++ "\n" ++ "58\n7 x")).error = some
        { line := 2, sourceLine := 5, tokens := ["7", "x"], cause := .unknownTag 'x' } := by
  have hmode : (endMode .plain "58\n\n// it's".toList).isQuoted = false := by decide
  have hcompile := (compile_append hmode "58\n7 x").2 (by decide +kernel)
  rcases hcompile.2 (by decide +kernel) with ⟨his, -, -, he, -⟩
  exact ⟨hmode, his.trans (by decide +kernel), he.trans (by decide +kernel)⟩

end Source
end CellMachine
