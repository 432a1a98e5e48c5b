import CellMachine.Proofs.Instruction
import CellMachine.Proofs.Machine.ActiveNamespace
import CellMachine.Proofs.Source.Compile

/-!
# Programs of source texts

This module proves that every source text compiles to a binary program, also one with a fault. What
is read back are the instructions of the lines before the first faulty one, each with the number of
its line. Running a source text can therefore fail for the fault in the text, but not because its
program cannot be read.
-/

namespace CellMachine

open Stateful

/-! ## Binary forms -/

namespace Source

/-- Whether the counts in the binary form of what a text compiles to fit a word: those of the lines,
of the arguments of every line and of the bytes of every argument. -/
structure FitsWords (text : String) : Prop where
  lines : (instructionLines text).length < 2 ^ 32
  args : ∀ l ∈ instructionLines text, l.2.tail.length < 2 ^ 32
  bytes : ∀ l ∈ instructionLines text, ∀ token ∈ l.2.tail, ∀ a, argument token.toList = .ok a →
    a.length < 2 ^ 32

variable {text : String}

theorem FitsWords.fits (h : FitsWords text) : ∀ i ∈ (compile text).instructions, i.Fits := by
  intro i hi
  obtain ⟨k, hk⟩ := List.getElem?_of_mem hi
  obtain ⟨l, hl, hline⟩ := exists_of_getElem?_compileFrom hk
  obtain ⟨-, first, rest, htokens, -, hargs⟩ := exists_of_instruction hline
  have hcount := h.args l (List.mem_of_getElem? hl)
  have hbytes := h.bytes l (List.mem_of_getElem? hl)
  rw [htokens, List.tail_cons] at hcount hbytes
  refine ⟨hargs.length_eq ▸ hcount, fun a ha => ?_⟩
  obtain ⟨n, hn, rfl⟩ := List.getElem_of_mem ha
  have hn' : n < rest.length := hargs.length_eq ▸ hn
  exact hbytes rest[n] (List.getElem_mem hn') i.args[n] (hargs.get hn' hn)

theorem decode_bytes (h : FitsWords text) :
    Program.decode (compile text).bytes = .ok (.ofList (compile text).instructions) :=
  Program.decode_encodeAll h.fits

/-- Instructions are numbered like the lines that they are from. -/
theorem exists_of_getElem?_compile (h : FitsWords text) {k : Nat} {i : Instruction}
    (hk : (compile text).instructions[k]? = some i) :
    i.line.toNat = k ∧ ∃ n first rest, (instructionLines text)[k]? = some (n, first :: rest) ∧
      opcode first.toList = .ok i.opcode ∧
      List.Forall₂ (fun token a => argument token.toList = .ok a) rest i.args := by
  obtain ⟨⟨n, tokens⟩, hl, hline⟩ := exists_of_getElem?_compileFrom hk
  obtain ⟨hnumber, first, rest, rfl, hcode, hargs⟩ := exists_of_instruction hline
  have hlt : k < UInt32.size := Nat.lt_trans (List.getElem?_eq_some_iff.1 hl).1 h.lines
  refine ⟨?_, n, first, rest, hl, hcode, hargs⟩
  rw [hnumber, UInt32.zero_add, UInt32.toNat_ofNat_of_lt' hlt]

/-- A fault is that of the first faulty line. -/
theorem fault_compile (h : FitsWords text) {e : CompileError} (he : (compile text).error = some e) :
    e.line.toNat = (compile text).size ∧
      (instructionLines text)[(compile text).size]? = some (e.sourceLine, e.tokens) ∧
      (∀ line, instruction line e.tokens = .error e.cause) ∧
      ∀ l ∈ (instructionLines text).take (compile text).size, ¬IsFaulty l.2 := by
  obtain ⟨hl, hcause⟩ := fault_compileFrom he
  have hsize := size_compileFrom 0 (instructionLines text)
  rw [show (compileFrom 0 (instructionLines text)).error = some e from he] at hsize
  obtain ⟨hlt, hnumber⟩ := hsize
  refine ⟨?_, hl, hcause, fun l hmem => ?_⟩
  · rw [hnumber, UInt32.zero_add]
    exact UInt32.toNat_ofNat_of_lt' (Nat.lt_trans hlt h.lines)
  · obtain ⟨k, hk⟩ := List.getElem?_of_mem hmem
    rw [List.getElem?_take] at hk
    split at hk
    · rename_i hsmall
      have hcompiled : k < (compileFrom 0 (instructionLines text)).size := hsmall
      exact not_isFaulty_of_lt hcompiled hk
    · cases hk

end Source

/-! ## Faults of hooks -/

theorem Act.answer_ne_fault {α : Type} (a : Action α) (s : Focus) (f : Fault) (t : Focus) :
    answer a s ≠ .error (.fault f) t := by
  unfold answer
  split <;> nofun

/-- A handler answers for its own refusals only: what it asks for may fail, but it is told so. -/
theorem Act.kind_of_perform {α : Type} (a : Act α) {s t : Focus} {f : Fault}
    (h : a.perform s = .error (.fault f) t) : f.kind = .extension := by
  induction a generalizing s with
  | done v => cases h
  | refuse message =>
    cases h
    rfl
  | panic p => cases h
  | read address next ih | write address value next ih | delete address next ih =>
    rcases bind_eq_error_iff.1 h with h | ⟨r, u, -, h⟩
    · exact absurd h (answer_ne_fault _ _ _ _)
    · exact ih r h
  | emit bytes next ih =>
    rcases bind_eq_error_iff.1 h with h | ⟨-, u, -, h⟩
    · cases h
    · exact ih h
  | print text next ih =>
    rcases bind_eq_error_iff.1 h with h | ⟨-, u, -, h⟩
    · exact absurd h (Action.faultlessAt_print _ _ _)
    · exact ih h
  | lookUp name next ih =>
    rw [perform, get_bind] at h
    exact ih _ h
  | note name value next ih =>
    rcases bind_eq_error_iff.1 h with h | ⟨-, u, -, h⟩
    · cases h
    · exact ih h

theorem Handler.kind_of_call {h : Handler} {hook : Hook} {i : Instruction} {s t : Focus} {f : Fault}
    (hcall : h.call hook i s = .error (.fault f) t) : f.kind = .extension := by
  cases hperform : (h.hook hook (i.call s)).perform s with
  | ok v u =>
    rw [h.call_of_ok hperform] at hcall
    cases hcall
  | error e u =>
    rw [h.call_of_error hperform] at hcall
    cases hcall
    cases e with
    | fault f => exact Act.kind_of_perform _ hperform
    | panic p => rfl

theorem Action.kind_of_callHook {hook : Hook} {i : Instruction} {s t : Focus} {f : Fault}
    (h : callHook hook i s = .error (.fault f) t) : f.kind = .extension := by
  rcases bind_eq_error_iff.1 h with h | ⟨handler, u, -, h⟩
  · cases h
  · cases handler with
    | none => cases h
    | some handler => exact Handler.kind_of_call (h := handler) h

/-! ## Running source texts -/

namespace Source

variable {text : String}

/-- The instruction 109 has the program of the text run on top of its executor. -/
theorem run_of_reading (h : FitsWords text) (o : Options) {i : Instruction} {s : Focus}
    (hi : i.opcode = 109)
    (hread : Action.reading (fun ns => i.text ns 0) s = .ok text s) :
    i.run o s = .ok (.call
      (Action.offspring s.exec (.ofList (compile text).instructions) s.exec.active)
      (.append ((compile text).error.map .compile))) s := by
  have hcode : Opcode.ofCode? i.opcode = some .runSource := by
    rw [hi]
    decide +kernel
  rw [Instruction.run_of_code hcode]
  refine (bind_of_ok hread _).trans ?_
  rw [get_bind, Action.run, decode_bytes h]
  rfl

/-- When that program is over, the instruction fails for the fault in the text, or because of the
hook at its end. -/
theorem kind_of_receive {e? : Option CompileError} {i : Instruction} {outcome : Outcome}
    {t u : Focus} {f : Fault}
    (h : Action.receive i (.append (e?.map .compile)) outcome t = .error (.fault f) u) :
    (∃ e, e? = some e ∧ f = .compile e) ∨ f.kind = .extension := by
  cases e? with
  | some e =>
    cases h
    exact .inl ⟨e, rfl, rfl⟩
  | none =>
    have hfinish : Action.finish i .next _ = .error (.fault f) u := h
    rcases bind_eq_error_iff.1 hfinish with h | ⟨-, v, -, h⟩
    · exact .inr (Action.kind_of_callHook h)
    · cases h

/-- What a source text compiles to is a binary program, of the instructions of its lines up to the
first faulty one, and a fault is about that line. To run the text is to run this program, and then
to fail for the fault, if there is one. -/
theorem compile_wellFormed (h : FitsWords text) :
    ∃ p, Program.decode (compile text).bytes = .ok p ∧ p.size = (compile text).size ∧
      (∀ k i, p.get? k = some i → i.line.toNat = k ∧ ∃ n first rest,
        (instructionLines text)[k]? = some (n, first :: rest) ∧
        opcode first.toList = .ok i.opcode ∧
        List.Forall₂ (fun token a => argument token.toList = .ok a) rest i.args) ∧
      ((compile text).error.isSome ↔ ∃ l ∈ instructionLines text, IsFaulty l.2) ∧
      ((compile text).error = none → p.size = (instructionLines text).length) ∧
      (∀ e, (compile text).error = some e → e.line.toNat = p.size ∧
        (instructionLines text)[p.size]? = some (e.sourceLine, e.tokens) ∧
        (∀ line, instruction line e.tokens = .error e.cause) ∧
        ∀ l ∈ (instructionLines text).take p.size, ¬IsFaulty l.2) ∧
      ∀ (o : Options) (i : Instruction) (s : Focus), i.opcode = 109 →
        Action.reading (fun ns => i.text ns 0) s = .ok text s →
        i.run o s = .ok (.call (Action.offspring s.exec p s.exec.active)
          (.append ((compile text).error.map .compile))) s ∧
        ∀ outcome t f u,
          Action.receive i (.append ((compile text).error.map .compile)) outcome t =
            .error (.fault f) u → f.kind ≠ .decode := by
  refine ⟨_, decode_bytes h, rfl, fun k i => exists_of_getElem?_compile h,
    isSome_error_compileFrom_iff, fun hnone => ?_, fun e => fault_compile h, ?_⟩
  · have hsize := size_compileFrom 0 (instructionLines text)
    rwa [show (compileFrom 0 (instructionLines text)).error = none from hnone] at hsize
  · intro o i s hi hread
    refine ⟨run_of_reading h o hi hread, fun outcome t f u hf => ?_⟩
    rcases kind_of_receive hf with ⟨e, -, rfl⟩ | hhook
    · nofun
    · rw [hhook]
      nofun

/-- A text with a line feed between quotes, a blank line and a comment in front of a faulty line. -/
def faultySource : String := "2 s'a\nb' i0\n\n// it's\n7 i0 x\n58"

theorem compile_wellFormed_faulty :
    FitsWords faultySource ∧
      ∃ p e, Program.decode (compile faultySource).bytes = .ok p ∧ p.size = 1 ∧
        (compile faultySource).error = some e ∧ e.line.toNat = 1 ∧
        e.tokens = ["7", "i0", "x"] ∧ e.cause = .unknownTag 'x' := by
  have hlengths : ∀ l ∈ instructionLines faultySource, ∀ token ∈ l.2.tail,
      ((argument token.toList).toOption.getD []).length < 2 ^ 32 := by
    decide +kernel
  have hfits : FitsWords faultySource := by
    refine ⟨by decide +kernel, by decide +kernel, fun l hl token htoken a ha => ?_⟩
    have hlength := hlengths l hl token htoken
    rwa [ha] at hlength
  have herror : (compile faultySource).error =
      some ⟨1, 4, ["7", "i0", "x"], .unknownTag 'x'⟩ := by
    decide +kernel
  have hone : (compile faultySource).size = 1 := by decide +kernel
  obtain ⟨p, hdecode, hsize, -, -, -, hfault, -⟩ := compile_wellFormed hfits
  have hline := (hfault _ herror).1
  exact ⟨hfits, p, _, hdecode, hsize.trans hone, herror, hline.trans (hsize.trans hone), rfl, rfl⟩

end Source

end CellMachine
