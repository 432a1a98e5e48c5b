import CellMachine.Proofs.Machine.Assignment
import CellMachine.Proofs.Machine.Jump

/-!
# Reloading the program

This module proves that a program which is dumped into a cell and loaded from there goes on as with
a plain jump (`Action.reloads_as_jump`). The executor need not have started with that program: what
is dumped is what it has at the time, and it may have lost parts to other executors or be a loaded
program itself. The labels are not dumped, they are found again by the scan of what is loaded.
-/

namespace CellMachine

open Stateful

variable {o : Options} {i j k : Instruction} {s t : Focus} {ns : Namespace} {d : UInt32}

theorem Program.Built.decode_encode {p : Program} (hp : p.Built)
    (hfits : ∀ x ∈ p.instructions, x.Fits) : decode p.encode = .ok p := by
  rcases hp with ⟨is, rfl⟩
  exact decode_encodeAll hfits

theorem Focus.Assigns.follow {v : Bytes} (h : s.Assigns t d v) (f : Flow) :
    Focus.Assigns { s with exec := s.exec.follow f } { t with exec := s.exec.follow f } d v := by
  have hactive : (s.exec.follow f).active = s.exec.active := by cases f <;> rfl
  exact
    { exec := rfl
      world := h.world
      contains := h.contains
      handlers := h.handlers
      others := hactive ▸ h.others
      cells := hactive ▸ h.cells }

theorem Instruction.uint_of_address_ne {n : Nat} {ns' : Namespace}
    (h : ∀ b, b ≠ d → ns'.get? b = ns.get? b) (hd : i.address n ≠ .ok d) :
    i.uint ns' n = i.uint ns n := by
  refine uint_congr (fun b hb => h b ?_) (List.mem_singleton_self n)
  rintro rfl
  rcases List.mem_filterMap.1 hb with ⟨m, hm, haddress⟩
  obtain rfl := List.mem_singleton.1 hm
  cases ha : i.address m with
  | error f =>
    rw [ha] at haddress
    cases haddress
  | ok a =>
    rw [ha] at haddress
    cases haddress
    exact hd ha

/-! ## Single instructions -/

theorem Instruction.run_dumpProgram (hi : i.opcode = 49) :
    i.run o s = Action.atOnce (.dumpProgram i) s := by
  have hcode : Opcode.ofCode? i.opcode = some .dumpProgram := by
    rw [hi]
    decide +kernel
  rw [run, hcode]
  rfl

theorem Instruction.run_loadProgram (hj : j.opcode = 50) :
    j.run o s = Action.atOnce (.loadProgram j) s := by
  have hcode : Opcode.ofCode? j.opcode = some .loadProgram := by
    rw [hj]
    decide +kernel
  rw [run, hcode]
  rfl

theorem Instruction.run_jump (hk : k.opcode = 20) :
    k.run o s =
      match s.world.table.memory s.exec.active >>= fun ns =>
        Action.target k s.exec.program.size ns 0 with
      | .ok n => .ok (.flow (.jump n)) s
      | .error f => .error (.fault f) s := by
  have hcode : Opcode.ofCode? k.opcode = some (.jump .always) := by
    rw [hk]
    decide +kernel
  rw [run_of_form? hcode rfl]
  cases s.world.table.memory s.exec.active with
  | error f => rfl
  | ok ns =>
    have hflow : JumpForm.flow ⟨.always, false, false⟩ k s.exec.program ns = do
        return .jump (← Action.target k s.exec.program.size ns 0) := rfl
    simp only [bind, Except.bind] at hflow ⊢
    rw [hflow]
    cases Action.target k s.exec.program.size ns 0 with
    | ok n => rfl
    | error f => rfl

theorem Action.dumpProgram_of_ok (hd : i.address 0 = .ok d)
    (hns : s.world.table.memory s.exec.active = .ok ns) :
    dumpProgram i s = .ok .next (s.patch ⟨d, some s.exec.program.encode⟩) := by
  rw [dumpProgram, hd]
  exact bind_of_ok (setCell_patch hns d _) _

theorem Action.loadProgram_of_ok {v : Bytes} {w : UInt32} {p : Program}
    (hns : s.world.table.memory s.exec.active = .ok ns) (hv : j.value ns 0 = .ok v)
    (hw : j.uint ns 1 = .ok w) (hp : Program.decode v = .ok p) :
    loadProgram j s =
      match checkTarget w.toNat p.size with
      | .ok n => .ok (.jump n) { s with exec := { s.exec with program := p } }
      | .error f => .error (.fault f) s := by
  have hread : reading (fun ns => do return (← j.value ns 0, ← j.uint ns 1)) s = .ok (v, w) s := by
    refine (bind_of_ok (memory_of_ok hns) _).trans ?_
    simp only [hv, hw]
    rfl
  have hprogram : ofExcept ((Program.decode v).mapError .ofDecode) s = .ok p s := by
    rw [hp]
    rfl
  refine (bind_of_ok hread _).trans ((bind_of_ok hprogram _).trans ?_)
  cases checkTarget w.toNat p.size with
  | ok n => rfl
  | error f => rfl

theorem Action.loadProgram_of_error {v : Bytes} {f : Fault}
    (hns : s.world.table.memory s.exec.active = .ok ns) (hv : j.value ns 0 = .ok v)
    (hw : j.uint ns 1 = .error f) : loadProgram j s = .error (.fault f) s := by
  refine bind_of_error ((bind_of_ok (memory_of_ok hns) _).trans ?_) _
  simp only [hv, hw]
  rfl

/-- Without its namespace an executor can neither dump its program nor load one nor jump. -/
theorem Instruction.run_of_memory_error {f : Fault}
    (hf : s.world.table.memory s.exec.active = .error f) (hi : i.opcode = 49)
    (hid : i.address 0 = .ok d) (hj : j.opcode = 50) (hk : k.opcode = 20) :
    ∀ x ∈ [i, j, k], x.run o s = .error (.fault f) s := by
  simp only [List.forall_mem_cons, List.not_mem_nil, false_imp_iff, implies_true, and_true]
  have hmemory := Action.memory_of_error hf
  refine ⟨?_, ?_, ?_⟩
  · rw [run_dumpProgram hi]
    refine Action.atOnce_of_error ?_
    rw [Action.dumpProgram, hid]
    exact bind_of_error (bind_of_error hmemory _) _
  · rw [run_loadProgram hj]
    exact Action.atOnce_of_error (bind_of_error (bind_of_error hmemory _) _)
  · rw [run_jump hk, hf]
    rfl

/-! ## Both instructions -/

/-- To load the program that is being run is to jump. -/
theorem Instruction.run_loadProgram_eq (hj : j.opcode = 50)
    (hns : s.world.table.memory s.exec.active = .ok ns)
    (hv : j.value ns 0 = .ok s.exec.program.encode)
    (hp : Program.decode s.exec.program.encode = .ok s.exec.program) (hk : k.opcode = 20)
    (hkj : k.arg 0 = j.arg 1) : j.run o s = k.run o s := by
  have huint : k.uint ns 0 = j.uint ns 1 := by
    simp only [uint, value, address, hkj]
  rw [run_jump hk, hns, run_loadProgram hj]
  simp only [bind, Except.bind, Action.target, huint]
  cases hw : j.uint ns 1 with
  | error f => exact Action.atOnce_of_error (Action.loadProgram_of_error hns hv hw)
  | ok w =>
    have hload := Action.loadProgram_of_ok hns hv hw hp
    cases hcheck : Action.checkTarget w.toNat s.exec.program.size with
    | error f =>
      rw [hcheck] at hload
      simp only [hcheck]
      exact Action.atOnce_of_error hload
    | ok n =>
      rw [hcheck] at hload
      simp only [hcheck]
      exact Action.atOnce_of_ok hload

/-- A program that is loaded from the cell that it is dumped into is entered where a jump would have
led to before. -/
theorem Instruction.run_loadProgram_dumped (hp : s.exec.program.Built)
    (hfits : ∀ x ∈ s.exec.program.instructions, x.Fits)
    (hns : s.world.table.memory s.exec.active = .ok ns)
    (ht : Focus.Assigns { s with exec := s.exec.follow .next } t d s.exec.program.encode)
    (hj : j.opcode = 50) (hjd : j.address 0 = .ok d) (hk : k.opcode = 20)
    (hkj : k.arg 0 = j.arg 1) (hother : j.address 1 ≠ .ok d) :
    j.run o t =
      match Action.target k s.exec.program.size ns 0 with
      | .ok n => .ok (.flow (.jump n)) t
      | .error f => .error (.fault f) t := by
  rcases ht.cells with ⟨ns₀, ns', hns₀, hns', hcells⟩
  cases hns.symm.trans hns₀
  have hprogram : t.exec.program = s.exec.program := by
    rw [ht.exec]
    rfl
  have hmemory : t.world.table.memory t.exec.active = .ok ns' := by
    rw [ht.exec]
    exact hns'
  have hvalue : j.value ns' 0 = .ok s.exec.program.encode := by
    rw [value_of_address hjd, Namespace.load, hcells, if_pos rfl]
  have hdecode := hp.decode_encode hfits
  rw [← hprogram] at hvalue hdecode
  -- The target is in another cell, which holds what it has held.
  have htarget : k.uint ns' 0 = k.uint ns 0 := by
    refine uint_of_address_ne (fun b hb => (hcells b).trans (if_neg hb)) ?_
    rwa [address, hkj]
  rw [run_loadProgram_eq hj hmemory hvalue hdecode hk hkj, run_jump hk, hmemory, hprogram]
  simp only [bind, Except.bind, Action.target, htarget]

/-- An executor that dumps its program into a cell and loads it from there has the program that it
has had, with the same labels, and stands where a plain jump takes it to; nothing but the cell has
changed. If there is no such place both ways fail, and for the same reason. -/
theorem Action.reloads_as_jump {o : Options} {s : Focus} {i j k : Instruction} {d : UInt32}
    (hp : s.exec.program.Built) (hfits : ∀ x ∈ s.exec.program.instructions, x.Fits)
    (hfree : s.world.table.handler? s.exec.active = none) (hi : i.opcode = 49)
    (hid : i.address 0 = .ok d) (hj : j.opcode = 50) (hjd : j.address 0 = .ok d)
    (hk : k.opcode = 20) (hkj : k.arg 0 = j.arg 1) (hother : j.address 1 ≠ .ok d) :
    (∀ f, s.world.table.memory s.exec.active = .error f →
      ∀ x ∈ [i, j, k], runInstruction o x s = .error (.fault f) s) ∧
    ∀ ns, s.world.table.memory s.exec.active = .ok ns →
      ∃ u, runInstruction o i s = .ok .ready u ∧
        Focus.Assigns { s with exec := s.exec.follow .next } u d s.exec.program.encode ∧
        ((∃ w v, k.uint ns 0 = .ok w ∧ w.toNat < s.exec.program.size ∧
            runInstruction o k s = .ok .ready { s with exec := s.exec.follow (.jump w.toNat) } ∧
            runInstruction o j u = .ok .ready v ∧ v.exec.program = s.exec.program ∧
            Focus.Assigns { s with exec := s.exec.follow (.jump w.toNat) } v d
              s.exec.program.encode) ∨
          ∃ f, (∀ w, k.uint ns 0 = .ok w → s.exec.program.size ≤ w.toNat) ∧
            runInstruction o k s = .error (.fault f) s ∧
            runInstruction o j u = .error (.fault f) u) := by
  constructor
  · intro f hf x hx
    exact runInstruction_of_error hfree (Instruction.run_of_memory_error hf hi hid hj hk x hx)
  intro ns hns
  have hassigns := Focus.assigns_patch hns d s.exec.program.encode
  have hfree₁ := (hassigns.handlers s.exec.active).trans hfree
  have hdump : i.run o s = .ok (.flow .next) (s.patch ⟨d, some s.exec.program.encode⟩) := by
    rw [Instruction.run_dumpProgram hi]
    exact atOnce_of_ok (dumpProgram_of_ok hid hns)
  have hload := Instruction.run_loadProgram_dumped (o := o) hp hfits hns (hassigns.follow .next) hj
    hjd hk hkj hother
  have hjump := Instruction.run_jump (o := o) (s := s) hk
  rw [hns] at hjump
  simp only [bind, Except.bind] at hjump
  refine ⟨_, runInstruction_of_ok hfree hdump hfree₁, hassigns.follow .next, ?_⟩
  -- Both ways depend on the same check of the same target.
  cases htarget : target k s.exec.program.size ns 0 with
  | ok n =>
    rw [htarget] at hjump hload
    rcases target_eq_ok_iff.1 htarget with ⟨w, hw, hlt, rfl⟩
    exact .inl ⟨w, _, hw, hlt, runInstruction_of_ok hfree hjump hfree,
      runInstruction_of_ok hfree₁ hload hfree₁, rfl, hassigns.follow (.jump w.toNat)⟩
  | error f =>
    rw [htarget] at hjump hload
    refine .inr ⟨f, fun w hw => Nat.le_of_not_lt fun hlt => ?_,
      runInstruction_of_error hfree hjump, runInstruction_of_error hfree₁ hload⟩
    have hok := target_eq_ok_iff.2 ⟨w, hw, hlt, rfl⟩
    rw [htarget] at hok
    cases hok

/-- A program with two labels of one name, a label without a name and an empty argument. -/
theorem Action.reloads_as_jump_labelled :
    let i : Instruction := ⟨0, 49, [Bytes.ofWord 5]⟩
    let j : Instruction := ⟨1, 50, [Bytes.ofWord 5, Bytes.ofWord 1]⟩
    let k : Instruction := ⟨1, 20, [Bytes.ofWord 1]⟩
    let p : Program := .ofList
      [i, j, ⟨2, 125, [[97]]⟩, ⟨3, 125, []⟩, ⟨4, 125, [[97]]⟩, ⟨5, 2, [[], Bytes.ofWord 0]⟩]
    let s : Focus := ⟨{ table := OrderedMap.empty.insert 0 ⟨.ofList [(1, Bytes.ofWord 3)], none⟩ },
      { program := p, active := 0 }⟩
    p.Built ∧ (∀ x ∈ p.instructions, x.Fits) ∧ j.address 1 ≠ .ok 5 ∧
      runInstruction {} k s = .ok .ready { s with exec := { s.exec with ip := 3 } } ∧
      ∃ u v, runInstruction {} i s = .ok .ready u ∧ runInstruction {} j u = .ok .ready v ∧
        v.exec = { s.exec with ip := 3 } ∧ p.label? [97] = some 4 := by
  intro i j k p s
  have hp : s.exec.program.Built := ⟨_, rfl⟩
  have hfits : ∀ x ∈ s.exec.program.instructions, x.Fits := by
    unfold Instruction.Fits
    decide
  have hother : j.address 1 ≠ .ok 5 := by decide
  rcases Action.reloads_as_jump (o := {}) (i := i) (j := j) (k := k) hp hfits rfl rfl rfl rfl rfl
    rfl rfl hother with ⟨-, hreload⟩
  rcases hreload _ rfl with ⟨u, hi, -, ⟨w, v, hw, -, hk, hj, -, hv⟩ | ⟨f, hf, -, -⟩⟩
  · obtain rfl : w = 3 := (Except.ok.inj hw).symm
    exact ⟨hp, hfits, hother, hk, u, v, hi, hj, hv.exec, rfl⟩
  · exact absurd (hf 3 rfl) (by decide)

end CellMachine
