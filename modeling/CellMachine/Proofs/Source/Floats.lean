import CellMachine.Proofs.Source.Decompile

/-!
# Compiling decompiled floats

This module proves what comes back when a program is decompiled as one of floats and compiled again:
every argument that is no NaN, and for each NaN the one that is written (`compile_text_eq_oneNaN`).
There is a literal for one other NaN, `-nan`, so that a program of float literals comes back exactly
if this is not one of them (`compile_decompile_float_iff`).
-/

namespace CellMachine

/-! ## One NaN for all -/

/-- The bytes, or those of the NaN that is written if they are a NaN. -/
def Cell.oneNaN (a : Bytes) : Bytes :=
  match float a with
  | .ok x => ofFloat (if x.isNaN then Binary32.nan else x)
  | .error _ => a

def Instruction.oneNaN (i : Instruction) : Instruction := { i with args := i.args.map Cell.oneNaN }

namespace Cell

variable {x : Binary32} {a : Bytes}

theorem float_ofFloat (x : Binary32) : float (ofFloat x) = .ok x := by
  have hlength : (ofFloat x).length = 4 := rfl
  rw [float, if_pos hlength, ofFloat, Bytes.toWord_ofWord]

theorem ofFloat_inj {y : Binary32} (h : ofFloat x = ofFloat y) : x = y := by
  have hfloat := congrArg float h
  rw [float_ofFloat, float_ofFloat] at hfloat
  exact Except.ok.inj hfloat

theorem eq_ofFloat_of_float (h : float a = .ok x) : a = ofFloat x := by
  unfold float at h
  split at h
  · rename_i hlength
    cases h
    exact (Bytes.ofWord_toWord hlength).symm
  · cases h

theorem oneNaN_ofFloat (x : Binary32) :
    oneNaN (ofFloat x) = ofFloat (if x.isNaN then Binary32.nan else x) := by
  rw [oneNaN, float_ofFloat]

theorem oneNaN_ofFloat_eq_self_iff :
    oneNaN (ofFloat x) = ofFloat x ↔ ¬(x.isNaN = true ∧ x ≠ Binary32.nan) := by
  rw [oneNaN_ofFloat]
  by_cases hnan : x.isNaN = true
  · rw [if_pos hnan]
    constructor
    · rintro h ⟨-, hne⟩
      exact hne (ofFloat_inj h).symm
    · intro h
      have heq : x = Binary32.nan := by
        by_contra hne
        exact h ⟨hnan, hne⟩
      rw [heq]
  · simp [hnan]

theorem length_oneNaN (a : Bytes) : (oneNaN a).length = a.length := by
  unfold oneNaN
  cases h : float a with
  | error e => rfl
  | ok x =>
    rw [eq_ofFloat_of_float h]
    rfl

/-- The first byte of a NaN is no printable one. -/
theorem isPrintable_ofFloat_of_isNaN (h : x.isNaN = true) : isPrintable (ofFloat x) = false := by
  have hbits := Binary32.isNaN_iff.1 h
  unfold Binary32.magnitudeBits at hbits
  have hfirst : (x.bits >>> 24).toUInt8.toNat = 127 ∨ (x.bits >>> 24).toUInt8.toNat = 255 := by
    have hlt := x.bits.toNat_lt
    simp [Nat.shiftRight_eq_div_pow]
    omega
  have hbyte : isPrintableByte (x.bits >>> 24).toUInt8 = false := by
    simp only [isPrintableByte, UInt8.le_iff_toNat_le]
    rcases hfirst with hfirst | hfirst <;> rw [hfirst] <;> decide
  rw [isPrintable, ofFloat, Bytes.ofWord, List.all_cons, hbyte, Bool.false_and]

theorem oneNaN_of_isPrintable (h : isPrintable a = true) : oneNaN a = a := by
  unfold oneNaN
  cases hfloat : float a with
  | error e => rfl
  | ok x =>
    obtain rfl := eq_ofFloat_of_float hfloat
    by_cases hnan : x.isNaN = true
    · rw [isPrintable_ofFloat_of_isNaN hnan] at h
      cases h
    · dsimp only
      rw [if_neg hnan]

end Cell

theorem Instruction.fits_oneNaN {i : Instruction} (h : i.Fits) : i.oneNaN.Fits := by
  refine ⟨?_, ?_⟩
  · rw [oneNaN, List.length_map]
    exact h.1
  · intro b hb
    obtain ⟨a, ha, rfl⟩ := List.mem_map.1 hb
    rw [Cell.length_oneNaN]
    exact h.2 a ha

namespace Source.Decompiler

variable {d : Decompiler}

/-! ## What comes back -/

theorem argument_float (x : Binary32) : (Source.argument ('f' :: x.toPointText.toList)).toOption =
    some (Cell.ofFloat (if x.isNaN then Binary32.nan else x)) := by
  rw [Source.argument, Binary32.parse?_toPointText]
  rfl

theorem reread?_eq_oneNaN (hd : d.assume = .float) (a : Bytes) :
    d.reread? a = some (Cell.oneNaN a) := by
  unfold reread? token
  split
  · rename_i hshown
    have hprintable : Cell.isPrintable a = true := (Bool.and_eq_true_iff.1 hshown).2
    rw [argument_text, Cell.oneNaN_of_isPrintable hprintable,
      Text.encode_lossy_eq_self_iff.2 (Cell.isSome_decode?_of_isPrintable hprintable)]
  · rename_i hshown
    simp only [hd, argument, hshown, Cell.oneNaN]
    cases Cell.float a with
    | error e => exact argument_bytes a
    | ok x => exact argument_float x

/-- Numbered in order, the instructions come back with one NaN for all. -/
theorem rereads_oneNaN (hd : d.assume = .float) {line : Nat} {is : List Instruction}
    (hlines : ∀ k i, is[k]? = some i → i.line = UInt32.ofNat (line + k)) :
    d.Rereads line is (is.map Instruction.oneNaN) := by
  induction is generalizing line with
  | nil => exact .nil line
  | cons i is ih =>
    rw [List.map_cons, rereads_cons_cons_iff]
    refine ⟨hlines 0 i rfl, rfl, ?_, ih ?_⟩
    · rw [Instruction.oneNaN, List.forall₂_map_right_iff, List.forall₂_same]
      exact fun a _ => reread?_eq_oneNaN hd a
    · intro k j hj
      rw [hlines (k + 1) j hj, Nat.add_assoc, Nat.add_comm 1]

theorem compile_text_eq_oneNaN (hd : d.assume = .float) {is : List Instruction}
    (hlines : ∀ k i, is[k]? = some i → i.line = UInt32.ofNat k) :
    compile (d.text is) = { instructions := is.map Instruction.oneNaN, error := none } := by
  rw [compile_text_eq_iff]
  refine rereads_oneNaN hd fun k i hi => ?_
  rw [hlines k i hi, Nat.zero_add]

/-! ## Float literals -/

def argumentTokens (source : String) : List String :=
  (instructionLines source).flatMap fun l => l.2.tail

/-- If all lines compile, the arguments are the tokens, each read on its own. -/
theorem forall₂_argument_compileFrom {line : UInt32} {ls : List (Nat × List String)}
    (h : (compileFrom line ls).error = none) :
    List.Forall₂ (fun token a => Source.argument token.toList = .ok a)
      (ls.flatMap fun l => l.2.tail)
      ((compileFrom line ls).instructions.flatMap Instruction.args) := by
  induction ls generalizing line with
  | nil => exact .nil
  | cons first rest ih =>
    rw [compileFrom] at h ⊢
    cases hi : Source.instruction line first.2 with
    | error e =>
      rw [hi] at h
      cases h
    | ok i =>
      rw [hi] at h
      obtain ⟨-, code, tokens, htokens, -, hargs⟩ := exists_of_instruction hi
      dsimp only
      rw [List.flatMap_cons, List.flatMap_cons, htokens, List.tail_cons]
      exact List.rel_append hargs (ih h)

/-- What a float literal is compiled to, and whether it comes back. -/
theorem exists_of_argument_float {token : String} {a : Bytes}
    (htag : token.toList.head? = some 'f') (h : Source.argument token.toList = .ok a) :
    a.length = 4 ∧
      (Cell.oneNaN a = a ↔ token.toList.map Char.toLower ≠ "f-nan".toList) := by
  obtain ⟨body, hbody⟩ := List.head?_eq_some_iff.1 htag
  rw [hbody, Source.argument] at h
  cases hparse : Binary32.parse? body with
  | none => simp [hparse] at h
  | some x =>
    obtain rfl : Cell.ofFloat x = a := by simpa [hparse] using h
    have hlower : token.toList.map Char.toLower = "f-nan".toList ↔
        body.map Char.toLower = "-nan".toList := by
      rw [hbody, List.map_cons]
      exact List.cons_inj_right 'f'
    refine ⟨rfl, ?_⟩
    rw [Cell.oneNaN_ofFloat_eq_self_iff, Binary32.isNaN_and_ne_nan_iff hparse, Ne, hlower]

theorem forall_mem_iff_of_forall₂ {α β : Type} {p : α → Prop} {q : β → Prop} {as : List α}
    {bs : List β} (h : List.Forall₂ (fun a b => q b ↔ p a) as bs) :
    (∀ b ∈ bs, q b) ↔ ∀ a ∈ as, p a := by
  induction h with
  | nil => simp
  | cons hab _ ih => rw [List.forall_mem_cons, List.forall_mem_cons, hab, ih]

theorem map_oneNaN_eq_self_iff {is : List Instruction} :
    is.map Instruction.oneNaN = is ↔ ∀ a ∈ is.flatMap Instruction.args, Cell.oneNaN a = a := by
  have hmap {α : Type} (f : α → α) (l : List α) : l.map f = l ↔ ∀ a ∈ l, f a = a := by
    conv_lhs => rw [← List.map_id l, List.map_map]
    exact List.map_inj_left
  have hargs (i : Instruction) : i.oneNaN = i ↔ ∀ a ∈ i.args, Cell.oneNaN a = a := by
    rcases i with ⟨line, opcode, args⟩
    simp only [Instruction.oneNaN, Instruction.mk.injEq, true_and, hmap]
  simp only [hmap, hargs, List.forall_mem_flatMap]

/-- A program of float literals that is decompiled as one and compiled again comes back, without
fault, with one NaN for all. This is the program itself exactly if none of the literals is `-nan`,
in letters of either case: the text of a NaN does not tell its sign. -/
theorem compile_decompile_float_iff (tryStrings : Bool) (source : String)
    (hfloats : ∀ token ∈ argumentTokens source, token.toList.head? = some 'f')
    (hcompiles : (compile source).error = none)
    (hfits : ∀ i ∈ (compile source).instructions, i.args.length < 2 ^ 32) :
    ∃ text, decompile ⟨.float, tryStrings⟩ (compile source).bytes = .ok text ∧
      compile text =
        { instructions := (compile source).instructions.map Instruction.oneNaN, error := none } ∧
      ((compile text).result = .ok (compile source).bytes ↔
        ∀ token ∈ argumentTokens source, token.toList.map Char.toLower ≠ "f-nan".toList) := by
  have hliterals := (List.forall₂_and_left _ _).2 ⟨hfloats, forall₂_argument_compileFrom hcompiles⟩
  have hargs := hliterals.imp fun token a h => exists_of_argument_float h.1 h.2
  have hlengths := forall_mem_right hargs (fun _ _ h _ => h.1) (fun _ _ => trivial)
  have hkept := forall_mem_iff_of_forall₂ (hargs.imp fun _ _ h => h.2)
  change (∀ a ∈ (compile source).instructions.flatMap Instruction.args, Cell.oneNaN a = a) ↔ _
    at hkept
  have hall : ∀ i ∈ (compile source).instructions, i.Fits := by
    intro i hi
    refine ⟨hfits i hi, fun a ha => ?_⟩
    rw [hlengths a (List.mem_flatMap.2 ⟨i, hi, ha⟩)]
    decide
  have hlines : ∀ k i, (compile source).instructions[k]? = some i → i.line = UInt32.ofNat k := by
    intro k i hi
    have hline : i.line = UInt32.ofNat (0 + k) := line_compileFrom hi
    rw [hline, Nat.zero_add]
  have htext := compile_text_eq_oneNaN (d := ⟨.float, tryStrings⟩) rfl hlines
  refine ⟨_, ?_, htext, ?_⟩
  · rw [decompile, Compilation.bytes, Instruction.decodeAll_encodeAll hall]
    rfl
  · rw [result_eq_ok_iff, htext, and_iff_right rfl, ← map_oneNaN_eq_self_iff.trans hkept]
    constructor
    · refine Instruction.encodeAll_inj ?_ hall
      intro j hj
      obtain ⟨i, hi, rfl⟩ := List.mem_map.1 hj
      exact Instruction.fits_oneNaN (hall i hi)
    · exact congrArg Instruction.encodeAll

/-- Signs, exponents, infinities and the one NaN come back, whatever they are written as. -/
theorem compile_decompile_float_special :
    (compile "2 f-1.5e-3 f+Infinity\n19 fNAN f'-0' f32").error = none ∧
      ∃ text, decompile ⟨.float, true⟩
          (compile "2 f-1.5e-3 f+Infinity\n19 fNAN f'-0' f32").bytes = .ok text ∧
        (compile text).result = .ok (compile "2 f-1.5e-3 f+Infinity\n19 fNAN f'-0' f32").bytes := by
  have hcompiles : (compile "2 f-1.5e-3 f+Infinity\n19 fNAN f'-0' f32").error = none := by
    decide +kernel
  obtain ⟨text, htext, -, hiff⟩ := compile_decompile_float_iff true
    "2 f-1.5e-3 f+Infinity\n19 fNAN f'-0' f32" (by decide +kernel) hcompiles (by decide +kernel)
  exact ⟨hcompiles, text, htext, hiff.2 (by decide +kernel)⟩

/-- The sign of a NaN is lost, and with it the program. -/
theorem compile_decompile_float_minus_nan :
    (∀ token ∈ argumentTokens "2 f-nan", token.toList.head? = some 'f') ∧
      (compile "2 f-nan").result =
        .ok [0, 0, 0, 0, 0, 0, 0, 2, 0, 0, 0, 1, 0, 0, 0, 4, 255, 192, 0, 0] ∧
      (∀ tryStrings, decompile ⟨.float, tryStrings⟩ (compile "2 f-nan").bytes = .ok "2 fNaN\n") ∧
      (compile "2 fNaN\n").result =
        .ok [0, 0, 0, 0, 0, 0, 0, 2, 0, 0, 0, 1, 0, 0, 0, 4, 127, 192, 0, 0] := by
  refine ⟨by decide +kernel, ?_, ?_, ?_⟩
  · decide +kernel
  · decide +kernel
  · decide +kernel

end Source.Decompiler

end CellMachine
