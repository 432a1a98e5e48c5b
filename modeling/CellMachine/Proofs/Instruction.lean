import CellMachine.Instruction
import CellMachine.Proofs.Frame

/-!
# The binary form of programs

This module proves that binary programs and instruction sequences are in bijection, as far as the
counts in the binary form fit a word. Beyond that the counts wrap and the binary form says something
else, which is why `Instruction.Fits` is part of the statements.
-/

namespace CellMachine
namespace Instruction

/-- Whether every count in the binary form of an instruction fits a word. -/
def Fits (i : Instruction) : Prop :=
  i.args.length < 2 ^ 32 ∧ ∀ a ∈ i.args, a.length < 2 ^ 32

theorem encode_ne_nil (i : Instruction) : i.encode ≠ [] := by
  intro h
  have hlen := congrArg List.length h
  simp [encode] at hlen

theorem inverts_read : read.Inverts encode Fits := by
  -- The fields come in the order line, opcode, count, arguments; each step below adds one in front.
  have hrecord (line opcode : UInt32) (args : List Bytes) :
      (pure { line, opcode, args } : Reading Instruction).Inverts (fun _ => []) fun i =>
        i.args = args ∧ i.opcode = opcode ∧ i.line = line := by
    refine (Reading.inverts_pure _).congr (fun i => ?_) fun _ _ => rfl
    rcases i with ⟨line', opcode', args'⟩
    rw [mk.injEq]
    tauto
  have hargs (line opcode count : UInt32) :
      (do return { line, opcode, args := ← Reading.frames "argument" count.toNat } :
        Reading Instruction).Inverts (fun i => i.args.flatMap Bytes.framed ++ []) fun i =>
          UInt32.ofNat i.args.length = count ∧ i.opcode = opcode ∧ i.line = line ∧ i.Fits := by
    have h := (Reading.inverts_frames "argument" count.toNat).bind args fun args _ =>
      hrecord line opcode args
    refine h.congr (fun i => ?_) fun _ _ => rfl
    constructor
    · rintro ⟨⟨hlen, hall⟩, hopcode, hline⟩
      refine ⟨?_, hopcode, hline, ?_, hall⟩
      · rw [hlen, UInt32.ofNat_toNat]
      · rw [hlen]
        exact count.toNat_lt
    · rintro ⟨rfl, hopcode, hline, hlen, hall⟩
      refine ⟨⟨?_, hall⟩, hopcode, hline⟩
      rw [UInt32.toNat_ofNat', Nat.mod_eq_of_lt hlen]
  have hcount (line opcode : UInt32) :=
    Reading.Inverts.afterWord "argument count"
      (fun i : Instruction => UInt32.ofNat i.args.length) (hargs line opcode)
  have hopcode (line : UInt32) :=
    Reading.Inverts.afterWord "opcode" Instruction.opcode (hcount line)
  have hline := Reading.Inverts.afterWord "line index" Instruction.line hopcode
  refine hline.congr (fun _ => Iff.rfl) fun i _ => ?_
  simp [encode]

theorem encodedLength_eq (i : Instruction) :
    i.encodedLength = 12 + (i.args.map fun a => 4 + a.length).sum := rfl

theorem length_encode (i : Instruction) : i.encode.length = i.encodedLength := by
  simp only [encode, encodedLength_eq, List.length_append, Bytes.length_ofWord, List.length_flatMap,
    Bytes.length_framed]

/-! ## Whole programs -/

theorem decodeAll_eq_ok_iff {input : Bytes} {is : List Instruction} :
    decodeAll input = .ok is ↔ (∀ i ∈ is, i.Fits) ∧ encodeAll is = input :=
  Reading.runOn_toEnd_eq_ok_iff inverts_read encode_ne_nil

theorem decodeAll_encodeAll {is : List Instruction} (h : ∀ i ∈ is, i.Fits) :
    decodeAll (encodeAll is) = .ok is :=
  decodeAll_eq_ok_iff.2 ⟨h, rfl⟩

theorem encodeAll_inj {is js : List Instruction} (his : ∀ i ∈ is, i.Fits)
    (hjs : ∀ j ∈ js, j.Fits) (h : encodeAll is = encodeAll js) : is = js :=
  Reading.eq_of_flatMap_eq inverts_read encode_ne_nil his hjs h

theorem length_encodeAll (is : List Instruction) :
    (encodeAll is).length = (is.map encodedLength).sum := by
  simp only [encodeAll, List.length_flatMap, length_encode]

/-- Reading binary programs and writing instruction sequences are inverse to each other: what is
read is what has been written, and nothing else is accepted. -/
theorem decodeAll_encodeAll_bijective :
    (∀ (input : Bytes) (is : List Instruction),
      decodeAll input = .ok is ↔
        (∀ i ∈ is, i.args.length < 2 ^ 32 ∧ ∀ a ∈ i.args, a.length < 2 ^ 32) ∧
          encodeAll is = input) ∧
    (∀ is : List Instruction, (∀ i ∈ is, i.Fits) → decodeAll (encodeAll is) = .ok is) ∧
    (∀ (input : Bytes) (is : List Instruction), decodeAll input = .ok is → encodeAll is = input) ∧
    (∀ is js : List Instruction, (∀ i ∈ is, i.Fits) → (∀ j ∈ js, j.Fits) →
      encodeAll is = encodeAll js → is = js) ∧
    ∀ is : List Instruction, (encodeAll is).length = (is.map encodedLength).sum := by
  refine ⟨?_, ?_, ?_, ?_, length_encodeAll⟩
  · intro input is
    exact decodeAll_eq_ok_iff
  · intro is his
    exact decodeAll_encodeAll his
  · intro input is h
    exact (decodeAll_eq_ok_iff.1 h).2
  · intro is js his hjs h
    exact encodeAll_inj his hjs h

end Instruction
end CellMachine
