import CellMachine.Proofs.Binary32.Decimal
import CellMachine.Proofs.Cell
import CellMachine.Proofs.Instruction
import CellMachine.Proofs.Source.Compile
import CellMachine.Proofs.Source.Token
import CellMachine.Proofs.Text.Utf8
import CellMachine.Source.Compile
import CellMachine.Source.Decompile
import Mathlib.Algebra.Order.BigOperators.Group.List
import Mathlib.Data.List.Forall2

/-!
# Compiling decompiled text

This module proves which binary programs come back when their decompiled text is compiled. The text
scans to one line of tokens for each instruction. A token may be refused, or compile to other bytes
than the argument it was made of: `Rereads` relates the instructions before and after, and the
exact cases are those in which it is reflexive.

What comes back might still be the same binary program by accident, since the counts in it wrap.
Arguments that are read back as numbers are short, and arguments that are read back as text are no
shorter than before (`Text.length_le_length_encode_lossy`), so that no count can wrap without the
whole becoming longer.
-/

namespace CellMachine.Source

namespace Decompiler

variable {d : Decompiler}

/-! ## Arguments -/

/-- The token of an argument: what is written for it, without quotes. -/
def token (d : Decompiler) (a : Bytes) : List Char :=
  if d.tryStrings && Cell.isPrintable a then 's' :: (Text.lossy a).toList
  else
    match d.assume with
    | .text => 's' :: (Text.lossy a).toList
    | _ => d.argument a

/-- The argument that is compiled from what is written for `a`. -/
def reread? (d : Decompiler) (a : Bytes) : Option Bytes := (Source.argument (d.token a)).toOption

/-- Whether the decompiler shows an argument in a way that keeps its bytes. -/
def Keeps (d : Decompiler) (a : Bytes) : Prop :=
  (d.tryStrings = true ∧ Cell.isPrintable a = true) ∨ d.assume = .bytes ∨
    (d.assume = .uint ∧ a.length = 4) ∨ (d.assume = .text ∧ (Text.decode? a).isSome)

theorem isOrdinary_of_isDigit {c : Char} (h : c.isDigit) : IsOrdinary c := by
  refine ⟨?_, ?_, ?_, ?_, ?_⟩ <;>
    · rintro rfl
      exact absurd h (by decide)

theorem isOrdinary_of_mem_byteList {a : Bytes} {c : Char} (h : c ∈ (Cell.byteList a).toList) :
    IsOrdinary c := by
  rw [Cell.byteList, String.toList_ofList] at h
  rcases Text.mem_joined h with rfl | ⟨part, hpart, hc⟩
  · simp [IsOrdinary]
  · obtain ⟨b, -, rfl⟩ := List.mem_map.1 hpart
    exact isOrdinary_of_isDigit (Text.isDigit_of_mem_repr hc)

theorem scans_textArgument (a : Bytes) : Scans (textArgument a) ('s' :: (Text.lossy a).toList) := by
  have htag : Scans ['s'] ['s'] := scans_ordinary (by simp [IsOrdinary])
  exact htag.append (scans_quoted _)

theorem isOrdinary_of_mem_toPointText {x : Binary32} {c : Char} (h : c ∈ x.toPointText.toList) :
    IsOrdinary c := by
  have hletters : ∀ c ∈ ".-infNa".toList, IsOrdinary c := by simp [IsOrdinary]
  rcases Binary32.mem_toPointText h with h | h
  · exact isOrdinary_of_isDigit h
  · exact hletters c h

theorem scans_bytesArgument (a : Bytes) : Scans (bytesArgument a) (bytesArgument a) :=
  scans_ordinary
    (List.forall_mem_cons.2 ⟨by simp [IsOrdinary], fun _ => isOrdinary_of_mem_byteList⟩)

theorem scans_argument (d : Decompiler) (a : Bytes) : Scans (d.argument a) (d.token a) := by
  unfold argument token
  split
  · exact scans_textArgument a
  · rename_i hshown
    -- Tags, digits and commas mean nothing but themselves outside of quotes.
    cases hassume : d.assume with
    | bytes => simpa [argument, hshown, hassume] using scans_bytesArgument a
    | uint =>
      have hall : ∀ c ∈ 'i' :: (Nat.repr a.toNat).toList, IsOrdinary c :=
        List.forall_mem_cons.2 ⟨by simp [IsOrdinary],
          fun c hc => isOrdinary_of_isDigit (Text.isDigit_of_mem_repr hc)⟩
      simpa [argument, hshown, hassume] using scans_ordinary hall
    | float =>
      simp only [argument, hshown, hassume]
      cases Cell.float a with
      | error e => exact scans_bytesArgument a
      | ok x =>
        refine scans_ordinary (List.forall_mem_cons.2 ⟨by simp [IsOrdinary], fun c hc => ?_⟩)
        exact isOrdinary_of_mem_toPointText hc
    | text => exact scans_textArgument a

theorem token_ne_nil (d : Decompiler) (a : Bytes) : d.token a ≠ [] := by
  unfold token argument
  split
  · exact List.cons_ne_nil _ _
  · cases d.assume <;> simp [bytesArgument]
    split <;> simp

/-! ## What comes back -/

theorem argument_word (n : Nat) : (Source.argument ('i' :: (Nat.repr n).toList)).toOption =
    if n < UInt32.size then some (Cell.ofUint (UInt32.ofNat n)) else none := by
  rw [Source.argument, Text.word?_repr]
  split <;> rfl

theorem argument_text (s : String) :
    (Source.argument ('s' :: s.toList)).toOption = some (Text.encode s) := by
  simp [Source.argument, Except.toOption]

theorem argument_bytes (a : Bytes) : (Source.argument (bytesArgument a)).toOption = some a := by
  rw [bytesArgument, Source.argument, Cell.byteList?_byteList]
  rfl

theorem reread?_eq (hd : d.assume ≠ .float) (a : Bytes) : d.reread? a =
    if d.tryStrings && Cell.isPrintable a then some a
    else
      match d.assume with
      | .text => some (Text.encode (Text.lossy a))
      | .uint =>
        if a.toNat < UInt32.size then some (Cell.ofUint (UInt32.ofNat a.toNat)) else none
      | _ => some a := by
  unfold reread? token
  split
  · rename_i hshown
    have hprintable : Cell.isPrintable a = true := (Bool.and_eq_true_iff.1 hshown).2
    rw [argument_text,
      Text.encode_lossy_eq_self_iff.2 (Cell.isSome_decode?_of_isPrintable hprintable)]
  · rename_i hshown
    cases hassume : d.assume with
    | bytes => simp [argument, hshown, hassume, argument_bytes]
    | uint =>
      simp only [argument, hshown, hassume]
      exact argument_word _
    | float => exact absurd hassume hd
    | text => exact argument_text _

/-- An argument comes back as it is exactly if it is shown in a way that keeps its bytes. -/
theorem reread?_eq_self_iff (hd : d.assume ≠ .float) (a : Bytes) :
    d.reread? a = some a ↔ d.Keeps a := by
  rw [reread?_eq hd, Keeps]
  split
  · rename_i hshown
    simp [Bool.and_eq_true_iff.1 hshown]
  · rename_i hshown
    rw [Bool.and_eq_true_iff] at hshown
    cases hassume : d.assume with
    | bytes => simp
    | uint =>
      -- A number comes back in four bytes, whatever the length that it was read from.
      have hword : (a.toNat < UInt32.size ∧ Cell.ofUint (UInt32.ofNat a.toNat) = a) ↔
          a.length = 4 := by
        constructor
        · rintro ⟨-, h⟩
          rw [← h]
          rfl
        · intro h
          have hlt : a.toNat < UInt32.size := by simpa [h] using Bytes.toNat_lt a
          have hvalue : UInt32.ofNat a.toNat = a.toWord := by
            rw [← UInt32.toNat_inj, Bytes.toNat_toWord, UInt32.toNat_ofNat']
          exact ⟨hlt, by rw [hvalue]; exact Bytes.ofWord_toWord h⟩
      simpa [hshown] using hword
    | float => exact absurd hassume hd
    | text => simp [hshown, Text.encode_lossy_eq_self_iff]

/-! ## Lines -/

def tokens (d : Decompiler) (i : Instruction) : List (List Char) :=
  (Nat.repr i.opcode.toNat).toList :: i.args.map d.token

theorem scan_text (d : Decompiler) (is : List Instruction) :
    scan .plain (d.text is).toList = is.map d.tokens ++ [[[]]] := by
  rw [text, String.toList_ofList]
  induction is with
  | nil => rfl
  | cons i is ih =>
    have hopcode : Scans (Nat.repr i.opcode.toNat).toList (Nat.repr i.opcode.toNat).toList :=
      scans_ordinary fun c hc => isOrdinary_of_isDigit (Text.isDigit_of_mem_repr hc)
    have hline := scan_line hopcode d.argument d.token
      (fun a (_ : a ∈ i.args) => scans_argument d a)
    rw [List.flatMap_cons, List.append_assoc, List.singleton_append, instruction, hline, ih]
    rfl

theorem holdsInstruction_tokens (d : Decompiler) (i : Instruction) :
    holdsInstruction ((d.tokens i).map String.ofList) = true := by
  -- A numeral does not begin a comment.
  have hslash : ['/', '/'].isPrefixOf (Nat.repr i.opcode.toNat).toList = false := by
    rw [Bool.eq_false_iff]
    intro h
    have hmem : '/' ∈ (Nat.repr i.opcode.toNat).toList :=
      (List.isPrefixOf_iff_prefix.1 h).subset (by decide)
    exact absurd (Text.isDigit_of_mem_repr hmem) (by decide)
  rw [tokens, List.map_cons, holdsInstruction, String.toList_ofList, String.toList_ofList, hslash]
  rfl

theorem filter_tokens (d : Decompiler) (i : Instruction) :
    ((d.tokens i).map String.ofList).filter (· != "") = (d.tokens i).map String.ofList := by
  rw [List.filter_eq_self]
  intro token htoken
  obtain ⟨cs, hcs, rfl⟩ := List.mem_map.1 htoken
  have hne : cs ≠ [] := by
    rcases List.mem_cons.1 hcs with rfl | hcs
    · exact Text.repr_ne_nil _
    · obtain ⟨a, -, rfl⟩ := List.mem_map.1 hcs
      exact token_ne_nil d a
  simpa using hne

/-- Every line of a decompiled text is an instruction, but for the empty one at the end. -/
theorem instructionLines_text (d : Decompiler) (is : List Instruction) :
    instructionLines (d.text is) =
      is.zipIdx.map fun (i, n) => (n + 1, (d.tokens i).map String.ofList) := by
  rw [instructionLines, lines, scan_text]
  -- Lines are counted from zero, but the induction is about every start.
  generalize 0 = start
  induction is generalizing start with
  | nil => simp [holdsInstruction]
  | cons i is ih =>
    have hline := holdsInstruction_tokens d i
    have hrest := ih (start + 1)
    simp only [List.map_cons, List.cons_append, List.zipIdx_cons, List.filterMap_cons,
      filter_tokens, hline, if_true, hrest]

/-! ## Instructions -/

/-- The instructions `js` are compiled from what is written for `is`, the first of which is the
instruction number `line`. -/
inductive Rereads (d : Decompiler) : (line : Nat) → (is js : List Instruction) → Prop where
  | nil (line : Nat) : Rereads d line [] []
  | cons {line : Nat} {i : Instruction} {args : List Bytes} {is js : List Instruction} :
    List.Forall₂ (fun a b => d.reread? a = some b) i.args args → Rereads d (line + 1) is js →
      Rereads d line (i :: is)
        ({ line := UInt32.ofNat line, opcode := i.opcode, args } :: js)

theorem mapM_argument_eq_ok_iff (d : Decompiler) {as bs : List Bytes} :
    ((as.map d.token).map String.ofList).mapM (fun token => Source.argument token.toList) = .ok bs ↔
      List.Forall₂ (fun a b => d.reread? a = some b) as bs := by
  induction as generalizing bs with
  | nil => cases bs <;> simp [pure, Except.pure]
  | cons a as ih =>
    rw [List.map_cons, List.map_cons, List.mapM_cons, String.toList_ofList,
      List.forall₂_cons_left_iff]
    simp only [← ih]
    rw [reread?]
    cases Source.argument (d.token a) with
    | error e => simp [bind, Except.bind, Except.toOption]
    | ok b =>
      cases ((as.map d.token).map String.ofList).mapM fun token => Source.argument token.toList with
      | error e => simp [bind, Except.bind, Except.toOption]
      | ok cs => simp [bind, Except.bind, Except.toOption, pure, Except.pure, eq_comm]

theorem instruction_tokens_eq_ok_iff (d : Decompiler) {line : UInt32} {i j : Instruction} :
    Source.instruction line ((d.tokens i).map String.ofList) = .ok j ↔
      ∃ args, List.Forall₂ (fun a b => d.reread? a = some b) i.args args ∧
        j = { line, opcode := i.opcode, args } := by
  have hopcode : Source.opcode (String.ofList (Nat.repr i.opcode.toNat).toList).toList =
      .ok i.opcode := by
    rw [Source.opcode, String.toList_ofList, Text.word?_repr, if_pos i.opcode.toNat_lt]
    simp
  rw [tokens, List.map_cons, Source.instruction, hopcode]
  simp only [← mapM_argument_eq_ok_iff]
  cases ((i.args.map d.token).map String.ofList).mapM fun token => Source.argument token.toList with
  | error e => simp [bind, Except.bind]
  | ok args => simp [bind, Except.bind, pure, Except.pure, eq_comm]

theorem rereads_cons_cons_iff {line : Nat} {i j : Instruction} {is js : List Instruction} :
    d.Rereads line (i :: is) (j :: js) ↔ j.line = UInt32.ofNat line ∧ j.opcode = i.opcode ∧
      List.Forall₂ (fun a b => d.reread? a = some b) i.args j.args ∧
        d.Rereads (line + 1) is js := by
  constructor
  · generalize hj : j :: js = js'
    rintro (_ | ⟨hargs, hrest⟩)
    obtain ⟨rfl, rfl⟩ := List.cons.inj hj
    exact ⟨rfl, rfl, hargs, hrest⟩
  · rcases j with ⟨line', opcode, args⟩
    rintro ⟨rfl, rfl, hargs, hrest⟩
    exact .cons hargs hrest

theorem rereads_cons_iff {line : Nat} {i : Instruction} {is js : List Instruction} :
    d.Rereads line (i :: is) js ↔
      ∃ j js', Source.instruction (UInt32.ofNat line) ((d.tokens i).map String.ofList) = .ok j ∧
        d.Rereads (line + 1) is js' ∧ js = j :: js' := by
  constructor
  · rintro (_ | ⟨hargs, hrest⟩)
    exact ⟨_, _, (instruction_tokens_eq_ok_iff d).2 ⟨_, hargs, rfl⟩, hrest, rfl⟩
  · rintro ⟨j, js', hj, hrest, rfl⟩
    obtain ⟨args, hargs, rfl⟩ := (instruction_tokens_eq_ok_iff d).1 hj
    exact .cons hargs hrest

theorem compileFrom_eq_iff {line start : Nat} {is js : List Instruction} :
    compileFrom (UInt32.ofNat line)
        ((is.zipIdx start).map fun (i, n) => (n + 1, (d.tokens i).map String.ofList)) =
      { instructions := js, error := none } ↔ d.Rereads line is js := by
  induction is generalizing line start js with
  | nil =>
    simp only [List.zipIdx_nil, List.map_nil, compileFrom, Compilation.mk.injEq, and_true]
    constructor
    · rintro rfl
      exact .nil line
    · rintro ⟨⟩
      rfl
  | cons i is ih =>
    have hnext : UInt32.ofNat line + 1 = UInt32.ofNat (line + 1) :=
      (UInt32.ofNat_add line 1).symm
    have hrest := fun js' => @ih (line + 1) (start + 1) js'
    rw [rereads_cons_iff]
    simp only [List.zipIdx_cons, List.map_cons, compileFrom, hnext, ← hrest]
    -- A line that is refused ends the compilation, and then nothing is related to the lines.
    cases h : Source.instruction (UInt32.ofNat line) ((d.tokens i).map String.ofList) with
    | error e => simp
    | ok j =>
      generalize compileFrom _ _ = c
      rcases c with ⟨js', e⟩
      simp only [Compilation.mk.injEq, Except.ok.injEq]
      constructor
      · rintro ⟨rfl, rfl⟩
        exact ⟨j, js', rfl, ⟨rfl, rfl⟩, rfl⟩
      · rintro ⟨_, _, rfl, ⟨rfl, rfl⟩, rfl⟩
        exact ⟨rfl, rfl⟩

/-! ## Exactness -/

theorem rereads_self_iff (hd : d.assume ≠ .float) {line : Nat} {is : List Instruction} :
    d.Rereads line is is ↔
      (∀ (k : Nat) (hk : k < is.length), is[k].line = UInt32.ofNat (line + k)) ∧
      ∀ i ∈ is, ∀ a ∈ i.args, d.Keeps a := by
  induction is generalizing line with
  | nil => simp [Rereads.nil]
  | cons i is ih =>
    have hargs : List.Forall₂ (fun a b => d.reread? a = some b) i.args i.args ↔
        ∀ a ∈ i.args, d.Keeps a := by
      simp only [List.forall₂_same, reread?_eq_self_iff hd]
    rw [rereads_cons_cons_iff, hargs, ih, List.forall_mem_cons]
    constructor
    · rintro ⟨hline, -, hi, hlines, his⟩
      refine ⟨?_, hi, his⟩
      intro k hk
      cases k with
      | zero => exact hline
      | succ k =>
        rw [List.getElem_cons_succ, hlines k, Nat.add_assoc, Nat.add_comm 1]
    · rintro ⟨hlines, hi, his⟩
      refine ⟨hlines 0 (Nat.succ_pos _), rfl, hi, ?_, his⟩
      intro k hk
      have hk' := hlines (k + 1) (Nat.succ_lt_succ hk)
      rwa [List.getElem_cons_succ, Nat.add_comm k, ← Nat.add_assoc] at hk'

theorem forall_mem_right {α β : Type} {r : α → β → Prop} {p : α → Prop} {q : β → Prop}
    {as : List α} {bs : List β} (h : List.Forall₂ r as bs) (hr : ∀ a b, r a b → p a → q b)
    (hp : ∀ a ∈ as, p a) : ∀ b ∈ bs, q b := by
  induction h with
  | nil => exact fun b hb => by cases hb
  | cons hab _ ih =>
    obtain ⟨ha, has⟩ := List.forall_mem_cons.1 hp
    exact List.forall_mem_cons.2 ⟨hr _ _ hab ha, ih has⟩

theorem eq_of_forall₂_le {xs ys : List Nat} (h : List.Forall₂ (· ≤ ·) xs ys)
    (hle : ys.sum ≤ xs.sum) : xs = ys := by
  induction h with
  | nil => rfl
  | cons hxy hrest ih =>
    have hsum := hrest.sum_le_sum
    simp only [List.sum_cons] at hle
    rw [ih (by omega), Nat.le_antisymm hxy (by omega)]

theorem forall₂_map_length {as bs : List Bytes}
    (h : List.Forall₂ (fun a b => a.length ≤ b.length) as bs) :
    List.Forall₂ (· ≤ ·) (as.map fun a => 4 + a.length) (bs.map fun b => 4 + b.length) := by
  rw [List.forall₂_map_left_iff, List.forall₂_map_right_iff]
  exact h.imp fun a b hab => Nat.add_le_add_left hab 4

theorem encodedLength_le {i j : Instruction}
    (h : List.Forall₂ (fun a b => a.length ≤ b.length) i.args j.args) :
    i.encodedLength ≤ j.encodedLength :=
  Nat.add_le_add_left (forall₂_map_length h).sum_le_sum 12

/-- Arguments that do not get shorter cannot outgrow their counts unless the whole gets longer. -/
theorem fits_of_encodedLength_le {i j : Instruction}
    (h : List.Forall₂ (fun a b => a.length ≤ b.length) i.args j.args)
    (hle : j.encodedLength ≤ i.encodedLength) (hi : i.Fits) : j.Fits := by
  -- No length went down and their sum did not go up, so that they are the same one by one.
  have heq := eq_of_forall₂_le (forall₂_map_length h) (Nat.le_of_add_le_add_left hle)
  refine ⟨h.length_eq ▸ hi.1, ?_⟩
  intro b hb
  have hmem : 4 + b.length ∈ i.args.map fun a => 4 + a.length := heq ▸ List.mem_map_of_mem hb
  obtain ⟨a, ha, hab⟩ := List.mem_map.1 hmem
  have hlt := hi.2 a ha
  omega

theorem le_length_of_reread? (hd : d.assume = .text) {a b : Bytes} (h : d.reread? a = some b) :
    a.length ≤ b.length := by
  rw [reread?_eq (by simp [hd]), hd] at h
  split at h
  · obtain rfl := Option.some.inj h
    exact Nat.le_refl _
  · obtain rfl := Option.some.inj h
    exact Text.length_le_length_encode_lossy a

theorem length_lt_of_reread? (hd : d.assume ≠ .float) (htext : d.assume ≠ .text) {a b : Bytes}
    (h : d.reread? a = some b) (ha : a.length < 2 ^ 32) : b.length < 2 ^ 32 := by
  have hb : b = a ∨ b.length = 4 := by
    rw [reread?_eq hd] at h
    cases hassume : d.assume with
    | uint =>
      simp only [hassume] at h
      split_ifs at h
      · exact .inl (Option.some.inj h).symm
      · exact .inr (Option.some.inj h ▸ Bytes.length_ofWord _)
    | text => exact absurd hassume htext
    | bytes => simp_all
    | float => exact absurd hassume hd
  rcases hb with rfl | hb
  · exact ha
  · omega

theorem Rereads.sum_encodedLength_le (hd : d.assume = .text) {line : Nat}
    {is js : List Instruction} (h : d.Rereads line is js) :
    (is.map Instruction.encodedLength).sum ≤ (js.map Instruction.encodedLength).sum := by
  induction h with
  | nil => exact Nat.le_refl _
  | cons hargs _ ih =>
    simp only [List.map_cons, List.sum_cons]
    refine Nat.add_le_add (encodedLength_le ?_) ih
    exact hargs.imp fun a b hab => le_length_of_reread? hd hab

theorem Rereads.fits_of_text (hd : d.assume = .text) {line : Nat} {is js : List Instruction}
    (h : d.Rereads line is js)
    (hle : (js.map Instruction.encodedLength).sum ≤ (is.map Instruction.encodedLength).sum)
    (hfits : ∀ i ∈ is, i.Fits) : ∀ j ∈ js, j.Fits := by
  induction h with
  | nil => exact fun j hj => by cases hj
  | @cons line i args is js hargs hrest ih =>
    have hlengths := hargs.imp fun a b hab => le_length_of_reread? hd hab
    have htail := hrest.sum_encodedLength_le hd
    have hhead := encodedLength_le (j := ⟨UInt32.ofNat line, i.opcode, args⟩) hlengths
    obtain ⟨hi, his⟩ := List.forall_mem_cons.1 hfits
    simp only [List.map_cons, List.sum_cons] at hle
    -- What the first instruction gained the others could not give back, and the other way round.
    refine List.forall_mem_cons.2 ⟨?_, ih (by omega) his⟩
    exact fits_of_encodedLength_le hlengths (by omega) hi

theorem Rereads.fits_of_ne_text (hd : d.assume ≠ .float) (htext : d.assume ≠ .text) {line : Nat}
    {is js : List Instruction} (h : d.Rereads line is js) (hfits : ∀ i ∈ is, i.Fits) :
    ∀ j ∈ js, j.Fits := by
  induction h with
  | nil => exact fun j hj => by cases hj
  | cons hargs _ ih =>
    obtain ⟨hi, his⟩ := List.forall_mem_cons.1 hfits
    refine List.forall_mem_cons.2 ⟨⟨hargs.length_eq ▸ hi.1, ?_⟩, ih his⟩
    exact forall_mem_right hargs (fun a b hab => length_lt_of_reread? hd htext hab) hi.2

/-- No accident makes up for an argument that has changed. -/
theorem Rereads.eq_of_encodeAll_eq (hd : d.assume ≠ .float) {line : Nat} {is js : List Instruction}
    (h : d.Rereads line is js) (hfits : ∀ i ∈ is, i.Fits)
    (heq : Instruction.encodeAll js = Instruction.encodeAll is) : js = is := by
  refine Instruction.encodeAll_inj ?_ hfits heq
  -- Only text may come back longer than it was, and then the whole would be longer as well.
  by_cases htext : d.assume = .text
  · have hlen := congrArg List.length heq
    rw [Instruction.length_encodeAll, Instruction.length_encodeAll] at hlen
    exact h.fits_of_text htext (Nat.le_of_eq hlen) hfits
  · exact h.fits_of_ne_text hd htext hfits

theorem compile_text_eq_iff {is js : List Instruction} :
    compile (d.text is) = { instructions := js, error := none } ↔ d.Rereads 0 is js := by
  rw [compile, instructionLines_text]
  exact compileFrom_eq_iff

theorem result_eq_ok_iff {c : Compilation} {output : Bytes} :
    c.result = .ok output ↔ c.error = none ∧ c.bytes = output := by
  rcases c with ⟨is, e⟩
  cases e <;> simp [Compilation.result]

theorem result_compile_text_eq_ok_iff (hd : d.assume ≠ .float) {is : List Instruction}
    (hfits : ∀ i ∈ is, i.Fits) :
    (compile (d.text is)).result = .ok (Instruction.encodeAll is) ↔ d.Rereads 0 is is := by
  rw [result_eq_ok_iff, ← compile_text_eq_iff]
  constructor
  · rintro ⟨herror, hbytes⟩
    have hc : compile (d.text is) = ⟨(compile (d.text is)).instructions, none⟩ := by
      rw [← herror]
    have hrereads := compile_text_eq_iff.1 hc
    rw [hc, hrereads.eq_of_encodeAll_eq hd hfits hbytes]
  · intro h
    rw [h]
    exact ⟨rfl, rfl⟩

/-! ## Compiled programs -/

/-- Compiling the decompiled text of a binary program gives the binary program again, without fault,
exactly if its instructions are numbered from zero and every argument is shown in a way that keeps
its bytes. Shown as byte lists, whatever has been compiled, if only in part, comes back. -/
theorem compile_decompile_eq_ok_iff (d : Decompiler) (hd : d.assume ≠ .float) :
    (∀ (input : Bytes) (is : List Instruction),
      Instruction.decodeAll input = .ok is → is.length < 2 ^ 32 →
        ∃ text, d.decompile input = .ok text ∧
          ((compile text).result = .ok input ↔
            (∀ (k : Nat) (hk : k < is.length), is[k].line.toNat = k) ∧
              ∀ i ∈ is, ∀ a ∈ i.args, d.Keeps a)) ∧
    (d.assume = .bytes → ∀ source : String,
      (∀ i ∈ (compile source).instructions, i.Fits) → (compile source).size < 2 ^ 32 →
        ∃ text, d.decompile (compile source).bytes = .ok text ∧
          (compile text).result = .ok (compile source).bytes) := by
  have hexact : ∀ (input : Bytes) (is : List Instruction),
      Instruction.decodeAll input = .ok is → is.length < 2 ^ 32 →
        d.decompile input = .ok (d.text is) ∧
          ((compile (d.text is)).result = .ok input ↔
            (∀ (k : Nat) (hk : k < is.length), is[k].line.toNat = k) ∧
              ∀ i ∈ is, ∀ a ∈ i.args, d.Keeps a) := by
    intro input is hdecode hlen
    obtain ⟨hfits, rfl⟩ := Instruction.decodeAll_eq_ok_iff.1 hdecode
    refine ⟨by rw [decompile, hdecode]; rfl, ?_⟩
    -- Line numbers are words, which do not wrap within a program of this length.
    have hlines : (∀ (k : Nat) (hk : k < is.length), is[k].line = UInt32.ofNat (0 + k)) ↔
        ∀ (k : Nat) (hk : k < is.length), is[k].line.toNat = k := by
      refine forall₂_congr fun k hk => ?_
      rw [← UInt32.toNat_inj, Nat.zero_add, UInt32.toNat_ofNat', Nat.mod_eq_of_lt (by omega)]
    rw [result_compile_text_eq_ok_iff hd hfits, rereads_self_iff hd, hlines]
  refine ⟨?_, ?_⟩
  · intro input is hdecode hlen
    exact ⟨d.text is, hexact input is hdecode hlen⟩
  · intro hbytes source hfits hsize
    obtain ⟨htext, hiff⟩ := hexact (compile source).bytes (compile source).instructions
      (Instruction.decodeAll_encodeAll hfits) hsize
    refine ⟨_, htext, hiff.2 ⟨?_, fun _ _ _ _ => .inr (.inl hbytes)⟩⟩
    intro k hk
    have hline : (compile source).instructions[k].line = UInt32.ofNat (0 + k) :=
      line_compileFrom (List.getElem?_eq_getElem hk)
    rw [hline, Nat.zero_add, UInt32.toNat_ofNat', Nat.mod_eq_of_lt (Nat.lt_trans hk hsize)]

/-- A number in four bytes comes back when arguments are taken for numbers. -/
theorem compile_decompile_uint :
    AssumedType.uint ≠ .float ∧
      ∃ text, decompile ⟨.uint, false⟩ (Instruction.encodeAll [⟨0, 3, [[0, 0, 1, 2]]⟩]) = .ok text ∧
        (compile text).result = .ok (Instruction.encodeAll [⟨0, 3, [[0, 0, 1, 2]]⟩]) := by
  have hfits : ∀ i ∈ [(⟨0, 3, [[0, 0, 1, 2]]⟩ : Instruction)], i.Fits := by
    simp [Instruction.Fits]
  obtain ⟨text, htext, hiff⟩ := (compile_decompile_eq_ok_iff ⟨.uint, false⟩ (by decide)).1 _ _
    (Instruction.decodeAll_encodeAll hfits) (by decide)
  exact ⟨by decide, text, htext, hiff.2 ⟨by simp, by simp [Keeps]⟩⟩

end Decompiler
end CellMachine.Source
