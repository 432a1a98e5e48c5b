import CellMachine.Proofs.Bytes
import CellMachine.Proofs.Machine.Assignment

/-!
# Values of data instructions

This module proves what some data instructions compute, as relations between opcodes. An opcode
`Yields` a value on given operands if every instruction with the opcode that finds the operands in
its cells stores the value and does nothing else, whatever machine it is dispatched on and wherever
the cells are.

Numbers of any size are added and subtracted exactly, and the result is the shortest byte string of
its number, whatever zero bytes the operands begin with. The instructions that edit byte strings fit
together: what is cut in two can be joined again, and what is put in can be found and taken out. No
position at which they cut is beyond the end of the value.
-/

namespace CellMachine

/-! ## Opcodes and operands -/

/-- The instruction finds the operands in the cells that its first arguments name. -/
structure Instruction.Finds (i : Instruction) (s : Focus) (ns : Namespace)
    (operands : List Bytes) : Prop where
  memory : s.world.table.memory s.exec.active = .ok ns
  values : ∀ n v, operands[n]? = some v → i.value ns n = .ok v

namespace Opcode

/-- On the operands, an instruction with the opcode sets its destination to the value, and changes
nothing else. -/
def Yields (code : UInt32) (operands : List Bytes) (v : Bytes) : Prop :=
  ∃ op, ofCode? code = some (.data op) ∧
    ∀ (o : Options) (i : Instruction) (s : Focus) (ns : Namespace) (a : UInt32),
      i.opcode = code → i.Finds s ns operands → op.place.address i ns = .ok a →
        ∃ t, i.run o s = .ok (.flow .next) t ∧ s.Assigns t a v

/-- On the operands, an instruction with the opcode fails and changes nothing. -/
def Refuses (code : UInt32) (operands : List Bytes) (f : Fault) : Prop :=
  ∃ op, ofCode? code = some (.data op) ∧
    ∀ (o : Options) (i : Instruction) (s : Focus) (ns : Namespace) (a : UInt32),
      i.opcode = code → i.Finds s ns operands → op.place.address i ns = .ok a →
        i.run o s = .error (.fault f) s

section

variable {code : UInt32} {operands : List Bytes} {v : Bytes} {f : Fault} {op : DataOp} {o : Options}
  {i : Instruction} {s : Focus} {ns : Namespace} {a : UInt32}

theorem Yields.run (h : Yields code operands v) (hop : ofCode? code = some (.data op))
    (hi : i.opcode = code) (hfinds : i.Finds s ns operands) (ha : op.place.address i ns = .ok a) :
    ∃ t, i.run o s = .ok (.flow .next) t ∧ s.Assigns t a v := by
  rcases h with ⟨op', hop', hrun⟩
  cases hop.symm.trans hop'
  exact hrun o i s ns a hi hfinds ha

theorem Refuses.run (h : Refuses code operands f) (hop : ofCode? code = some (.data op))
    (hi : i.opcode = code) (hfinds : i.Finds s ns operands) (ha : op.place.address i ns = .ok a) :
    i.run o s = .error (.fault f) s := by
  rcases h with ⟨op', hop', hrun⟩
  cases hop.symm.trans hop'
  exact hrun o i s ns a hi hfinds ha

theorem yields_of_value (op : DataOp) (hop : ofCode? code = some (.data op))
    (hvalue : ∀ i ns, (∀ n x, operands[n]? = some x → Instruction.value i ns n = .ok x) →
      op.value i ns = .ok v) : Yields code operands v := by
  refine ⟨op, hop, ?_⟩
  intro o i s ns a hi hfinds ha
  have hv := hvalue i ns hfinds.values
  exact ⟨_, (Instruction.run_data_eq_ok_iff (hi ▸ hop)).2
    ⟨rfl, ns, a, v, hfinds.memory, ha, hv, rfl⟩, Focus.assigns_patch hfinds.memory a v⟩

theorem refuses_of_value (op : DataOp) (hop : ofCode? code = some (.data op))
    (hvalue : ∀ i ns, (∀ n x, operands[n]? = some x → Instruction.value i ns n = .ok x) →
      op.value i ns = .error f) : Refuses code operands f := by
  refine ⟨op, hop, ?_⟩
  intro o i s ns a hi hfinds ha
  have hv := hvalue i ns hfinds.values
  have heval : op.eval i (.ok ns) = .error f := by
    -- What a store stores is looked at before its destination, with the others it is after it.
    cases op with
    | store =>
      rw [DataOp.value] at hv
      simp only [DataOp.eval, hv, bind, Except.bind]
    | _ =>
      simp only [DataOp.place, Destination.address] at ha
      simp only [DataOp.eval, ha, hv, bind, Except.bind]
  have hdata := Action.data_eq op i s
  rw [hfinds.memory, heval] at hdata
  rw [Instruction.run_of_data (hi ▸ hop)]
  exact Action.atOnce_of_error hdata

end

end Opcode

/-! ## Numbers of any size -/

section Numbers

open Opcode Bytes

variable (a b c : Bytes)

theorem yields_add : Yields 123 [a, b] (ofNat (toNat a + toNat b)) := by
  refine yields_of_value (.big .add) (by decide +kernel) fun i ns h => ?_
  rw [DataOp.value, h 0 a rfl, h 1 b rfl]
  rfl

theorem yields_sub (h : toNat b ≤ toNat a) : Yields 124 [a, b] (ofNat (toNat a - toNat b)) := by
  refine yields_of_value (.big .sub) (by decide +kernel) fun i ns hv => ?_
  rw [DataOp.value, hv 0 a rfl, hv 1 b rfl]
  change computed (BigOp.sub.apply a b) = _
  rw [BigOp.apply, if_pos h]
  rfl

theorem refuses_sub (h : toNat a < toNat b) :
    Refuses 124 [a, b] (.arithmetic .negativeDifference) := by
  refine refuses_of_value (.big .sub) (by decide +kernel) fun i ns hv => ?_
  rw [DataOp.value, hv 0 a rfl, hv 1 b rfl]
  change computed (BigOp.sub.apply a b) = _
  rw [BigOp.apply, if_neg (Nat.not_le_of_lt h)]
  rfl

end Numbers

open Opcode Bytes in
/-- Sums and differences of numbers of any size are exact and in their shortest form, of which there
is one for each number: the one without a zero byte in front, unless it is the single zero byte. A
difference below zero is refused. So taking away what was added leaves the number as it was, in its
shortest form, and it does not matter in which order numbers are added. -/
theorem sums_exact :
    (∀ a b : Bytes, ∃ r, Yields 123 [a, b] r ∧ toNat r = toNat a + toNat b ∧ IsShortest r) ∧
    (∀ a b : Bytes, toNat b ≤ toNat a →
      ∃ r, Yields 124 [a, b] r ∧ toNat r = toNat a - toNat b ∧ IsShortest r) ∧
    (∀ a b : Bytes, toNat a < toNat b → Refuses 124 [a, b] (.arithmetic .negativeDifference)) ∧
    (∀ bs : Bytes, IsShortest bs ↔ bs ≠ [] ∧ (bs.head? = some 0 → bs = [0])) ∧
    (∀ n, ∃! bs : Bytes, IsShortest bs ∧ toNat bs = n) ∧
    (∀ a b : Bytes, ∃ r c, Yields 123 [a, b] r ∧ Yields 124 [r, b] c ∧ toNat c = toNat a ∧
      IsShortest c) ∧
    (∀ a b : Bytes, ∃ r, Yields 123 [a, b] r ∧ Yields 123 [b, a] r) ∧
    ∀ a b c : Bytes, ∃ x y r, Yields 123 [a, b] x ∧ Yields 123 [x, c] r ∧ Yields 123 [b, c] y ∧
      Yields 123 [a, y] r := by
  refine ⟨?_, ?_, refuses_sub, fun _ => isShortest_iff, ?_, ?_, ?_, ?_⟩
  · intro a b
    exact ⟨_, yields_add a b, toNat_ofNat _, isShortest_ofNat _⟩
  · intro a b h
    exact ⟨_, yields_sub a b h, toNat_ofNat _, isShortest_ofNat _⟩
  · intro n
    refine ⟨ofNat n, ⟨isShortest_ofNat n, toNat_ofNat n⟩, ?_⟩
    rintro bs ⟨hbs, rfl⟩
    exact hbs.eq (isShortest_ofNat _) (toNat_ofNat _).symm
  · intro a b
    have hle : toNat b ≤ toNat (ofNat (toNat a + toNat b)) := by
      rw [toNat_ofNat]
      exact Nat.le_add_left _ _
    refine ⟨_, _, yields_add a b, yields_sub _ b hle, ?_, isShortest_ofNat _⟩
    rw [toNat_ofNat, toNat_ofNat, Nat.add_sub_cancel]
  · intro a b
    refine ⟨_, yields_add a b, ?_⟩
    rw [Nat.add_comm]
    exact yields_add b a
  · intro a b c
    -- What is added last does not see how the number before it has been come to.
    have hleft := yields_add (ofNat (toNat a + toNat b)) c
    have hright := yields_add a (ofNat (toNat b + toNat c))
    rw [toNat_ofNat] at hleft hright
    rw [← Nat.add_assoc] at hright
    exact ⟨_, _, _, yields_add a b, hleft, yields_add b c, hright⟩

/-- Of 256 and 1, each with or without zero bytes in front, only one can be taken away from the
other. -/
theorem sums_exact_borrow :
    let i : Instruction := ⟨0, 124, [[0], [1], [2]]⟩
    let j : Instruction := ⟨1, 124, [[1], [0], [2]]⟩
    let cells : Namespace := .ofList [(0, [0, 1, 0]), (1, [0, 1])]
    let s : Focus := ⟨{ table := OrderedMap.empty.insert 0 ⟨cells, none⟩ },
      { program := default, active := 0 }⟩
    (∃ t, i.run {} s = .ok (.flow .next) t ∧ s.Assigns t 2 [255]) ∧
      j.run {} s = .error (.fault (.arithmetic .negativeDifference)) s := by
  intro i j cells s
  have hcode : Opcode.ofCode? 124 = some (.data (.big .sub)) := by decide +kernel
  obtain ⟨r, hyields, hr, hshortest⟩ := sums_exact.2.1 [0, 1, 0] [0, 1] (by decide)
  obtain rfl : r = [255] := hshortest.eq (Bytes.isShortest_cons (by decide) []) hr
  have hrefuses := sums_exact.2.2.1 [0, 1] [0, 1, 0] (by decide)
  have hi : i.Finds s cells [[0, 1, 0], [0, 1]] :=
    ⟨rfl, by rintro (_ | _ | n) v ⟨⟩ <;> rfl⟩
  have hj : j.Finds s cells [[0, 1], [0, 1, 0]] :=
    ⟨rfl, by rintro (_ | _ | n) v ⟨⟩ <;> rfl⟩
  exact ⟨hyields.run hcode rfl hi rfl, hrefuses.run hcode rfl hj rfl⟩

/-! ## Editing byte strings -/

namespace Bytes

/-- The bytes from one position up to another, if these are positions of the value in this order. -/
def slice? (v : Bytes) (first past : Nat) : Option Bytes :=
  if first ≤ past ∧ past ≤ v.length then some ((v.take past).drop first) else none

variable {v : Bytes} {k : Nat}

theorem slice?_take (h : k ≤ v.length) : v.slice? 0 k = some (v.take k) :=
  if_pos ⟨Nat.zero_le k, h⟩

theorem slice?_drop (h : k ≤ v.length) : v.slice? k v.length = some (v.drop k) := by
  rw [slice?, if_pos ⟨h, Nat.le_refl _⟩, List.take_length]

end Bytes

namespace Cell

variable (v p : Bytes) (m n : UInt32)

theorem clamp_le (length : Nat) : clamp n length ≤ length := Nat.min_le_right _ _

theorem take_clamp : v.take (clamp n v.length) = v.take n.toNat := List.take_eq_take_min.symm

theorem drop_clamp : v.drop (clamp n v.length) = v.drop n.toNat := List.drop_eq_drop_min.symm

theorem keepFront_eq : keepFront v n = v.take n.toNat := take_clamp v n

theorem dropFront_eq : dropFront v n = v.drop n.toNat := drop_clamp v n

theorem insertAt_eq : insertAt v p n = v.take n.toNat ++ p ++ v.drop n.toNat := by
  rw [insertAt, take_clamp, drop_clamp]

/-- A sum that is beyond the words is beyond the end too. -/
theorem removeRange_eq (h : v.length < 2 ^ 32) :
    removeRange v m n = v.take n.toNat ++ v.drop (n.toNat + m.toNat) := by
  have hsum : (saturatingAdd n m).toNat = min (n.toNat + m.toNat) (2 ^ 32 - 1) :=
    UInt32.toNat_ofNat_of_lt' (show min _ (2 ^ 32 - 1) < 2 ^ 32 by omega)
  rw [removeRange, take_clamp, drop_clamp, hsum]
  by_cases hfits : n.toNat + m.toNat ≤ 2 ^ 32 - 1
  · rw [Nat.min_eq_left hfits]
  · rw [Nat.min_eq_right (by omega), List.drop_of_length_le (by omega),
      List.drop_of_length_le (by omega)]

theorem slice_eq : slice v m n = (v.take n.toNat).drop m.toNat := by
  have hcut : slice v m n = (v.take (clamp n v.length)).drop (clamp m v.length) := by
    unfold slice
    by_cases h : clamp m v.length < clamp n v.length
    · exact if_pos h
    · have hlength := List.length_take_le (clamp n v.length) v
      rw [List.drop_of_length_le (by omega)]
      exact if_neg h
  rw [hcut, take_clamp]
  by_cases h : m.toNat ≤ v.length
  · rw [clamp, Nat.min_eq_left h]
  · have hlength := List.length_take_le' n.toNat v
    rw [clamp, Nat.min_eq_right (by omega), List.drop_of_length_le hlength,
      List.drop_of_length_le (by omega)]

/-- No edit of `v` with the positions `m` and `n` cuts it beyond its bounds: what is kept of it are
slices. -/
structure EditsWithin (v p : Bytes) (m n : UInt32) : Prop where
  front : v.slice? 0 (clamp n v.length) = some (keepFront v n)
  rest : v.slice? (clamp n v.length) v.length = some (dropFront v n)
  inserted : ∃ x y, v.slice? 0 (clamp n v.length) = some x ∧
    v.slice? (clamp n v.length) v.length = some y ∧ insertAt v p n = x ++ p ++ y
  removed : ∃ x y, v.slice? 0 (clamp n v.length) = some x ∧
    v.slice? (clamp (saturatingAdd n m) v.length) v.length = some y ∧ removeRange v m n = x ++ y
  sliced : slice v m n = [] ∨
    v.slice? (clamp m v.length) (clamp n v.length) = some (slice v m n)

theorem editsWithin : EditsWithin v p m n := by
  have hfront := Bytes.slice?_take (clamp_le n v.length)
  have hrest (k : UInt32) := Bytes.slice?_drop (clamp_le k v.length)
  refine ⟨hfront, hrest n, ⟨_, _, hfront, hrest n, rfl⟩, ⟨_, _, hfront, hrest _, rfl⟩, ?_⟩
  by_cases h : clamp m v.length < clamp n v.length
  · right
    rw [Bytes.slice?, if_pos ⟨Nat.le_of_lt h, clamp_le n v.length⟩]
    exact congrArg some (if_pos h).symm
  · exact .inl (if_neg h)

end Cell

section Editing

open Opcode

variable {v p n k l e c s : Bytes} {N K C S E : UInt32}

theorem Instruction.uint_of_value {i : Instruction} {ns : Namespace} {m : Nat}
    (hvalue : i.value ns m = .ok n) (hn : Cell.uint n = .ok N) : i.uint ns m = .ok N := by
  rw [uint, hvalue]
  change typed Cell.uint n = _
  rw [typed, hn]
  rfl

theorem yields_keepFront (hn : Cell.uint n = .ok N) : Yields 6 [v, n] (v.take N.toNat) := by
  refine yields_of_value .keepFront (by decide +kernel) fun i ns h => ?_
  rw [DataOp.value, h 0 v rfl, Instruction.uint_of_value (h 1 n rfl) hn, ← Cell.keepFront_eq]
  rfl

theorem yields_dropFront (hn : Cell.uint n = .ok N) : Yields 7 [v, n] (v.drop N.toNat) := by
  refine yields_of_value .dropFront (by decide +kernel) fun i ns h => ?_
  rw [DataOp.value, h 0 v rfl, Instruction.uint_of_value (h 1 n rfl) hn, ← Cell.dropFront_eq]
  rfl

theorem yields_removeRange (hv : v.length < 2 ^ 32) (hc : Cell.uint c = .ok C)
    (hs : Cell.uint s = .ok S) :
    Yields 8 [v, c, s] (v.take S.toNat ++ v.drop (S.toNat + C.toNat)) := by
  refine yields_of_value .removeRange (by decide +kernel) fun i ns h => ?_
  rw [DataOp.value, h 0 v rfl, Instruction.uint_of_value (h 1 c rfl) hc,
    Instruction.uint_of_value (h 2 s rfl) hs, ← Cell.removeRange_eq v C S hv]
  rfl

theorem yields_insert (hk : Cell.uint k = .ok K) :
    Yields 5 [p, v, k] (v.take K.toNat ++ p ++ v.drop K.toNat) := by
  refine yields_of_value .insert (by decide +kernel) fun i ns h => ?_
  rw [DataOp.value, h 0 p rfl, h 1 v rfl, Instruction.uint_of_value (h 2 k rfl) hk,
    ← Cell.insertAt_eq]
  rfl

theorem yields_slice (hs : Cell.uint s = .ok S) (he : Cell.uint e = .ok E) :
    Yields 26 [s, e, v] ((v.take E.toNat).drop S.toNat) := by
  refine yields_of_value .slice (by decide +kernel) fun i ns h => ?_
  rw [DataOp.value, h 2 v rfl, Instruction.uint_of_value (h 0 s rfl) hs,
    Instruction.uint_of_value (h 1 e rfl) he, ← Cell.slice_eq]
  rfl

theorem yields_reverse : Yields 87 [v] v.reverse := by
  refine yields_of_value .reverse (by decide +kernel) fun i ns h => ?_
  rw [DataOp.value, h 0 v rfl]
  rfl

end Editing

open Opcode in
/-- The instructions that edit byte strings agree. Front and rest of a value make up the value. A
piece that is put into a value is found there by a slice, and taking as many bytes out again leaves
the value as it was. A slice is what dropping leaves of a front, whatever its bounds are. Taking
bytes out leaves the bytes before and those behind, where the end of what is taken out does not wrap
around. Backwards twice is forwards. All positions at which values are cut are within them. -/
theorem edits_agree :
    (∀ v n N, Cell.uint n = .ok N → ∃ x y, Yields 6 [v, n] x ∧ Yields 7 [v, n] y ∧ x ++ y = v ∧
      x.length = min N.toNat v.length) ∧
    (∀ v p k l e K L E, v.length + p.length < 2 ^ 32 → Cell.uint k = .ok K → Cell.uint l = .ok L →
      Cell.uint e = .ok E → L.toNat = p.length → E.toNat = K.toNat + p.length →
      K.toNat ≤ v.length →
      ∃ x, Yields 5 [p, v, k] x ∧ Yields 8 [x, l, k] v ∧ Yields 26 [k, e, x] p) ∧
    (∀ v s e S E, Cell.uint s = .ok S → Cell.uint e = .ok E →
      ∃ x y, Yields 6 [v, e] x ∧ Yields 7 [x, s] y ∧ Yields 26 [s, e, v] y) ∧
    (∀ v c s C S, v.length < 2 ^ 32 → Cell.uint c = .ok C → Cell.uint s = .ok S →
      Yields 8 [v, c, s] (v.take (min S.toNat v.length) ++
        v.drop (min (S.toNat + C.toNat) v.length))) ∧
    (∀ v, ∃ x, Yields 87 [v] x ∧ Yields 87 [x] v) ∧
    ∀ v p m n, Cell.EditsWithin v p m n := by
  refine ⟨?_, ?_, ?_, ?_, ?_, Cell.editsWithin⟩
  · intro v n N hn
    exact ⟨_, _, yields_keepFront hn, yields_dropFront hn, List.take_append_drop _ v,
      List.length_take⟩
  · intro v p k l e K L E hlength hk hl he hL hE hK
    -- All cuts are at the ends of the three parts that the longer value is made up of.
    have hfront : (v.take K.toNat).length = K.toNat := List.length_take_of_le hK
    have hboth : (v.take K.toNat ++ p).length = E.toNat := by
      rw [List.length_append, hfront, hE]
    have hx : (v.take K.toNat ++ p ++ v.drop K.toNat).length < 2 ^ 32 := by
      rw [List.length_append, hboth, List.length_drop]
      omega
    have hremoved := yields_removeRange hx hl hk
    have hsliced := yields_slice (v := v.take K.toNat ++ p ++ v.drop K.toNat) hk he
    rw [hL, ← hE, List.drop_left' hboth, List.append_assoc, List.take_left' hfront,
      List.take_append_drop, ← List.append_assoc] at hremoved
    rw [List.take_left' hboth, List.drop_left' hfront] at hsliced
    exact ⟨_, yields_insert hk, hremoved, hsliced⟩
  · intro v s e S E hs he
    exact ⟨_, _, yields_keepFront he, yields_dropFront hs, yields_slice hs he⟩
  · intro v c s C S hv hc hs
    rw [← List.take_eq_take_min, ← List.drop_eq_drop_min]
    exact yields_removeRange hv hc hs
  · intro v
    have htwice := yields_reverse (v := v.reverse)
    rw [List.reverse_reverse] at htwice
    exact ⟨_, yields_reverse, htwice⟩

/-- Two bytes are put into a value behind its first byte, and taken out again. -/
theorem edits_agree_inserted :
    let i : Instruction := ⟨0, 5, [[0], [1], [2]]⟩
    let j : Instruction := ⟨1, 8, [[1], [3], [2]]⟩
    let cells : Namespace := .ofList [(0, [120, 121]), (1, [97, 98, 99]), (2, [1]), (3, [2])]
    let s : Focus := ⟨{ table := OrderedMap.empty.insert 0 ⟨cells, none⟩ },
      { program := default, active := 0 }⟩
    ∃ t u ns, i.run {} s = .ok (.flow .next) t ∧ j.run {} t = .ok (.flow .next) u ∧
      u.world.table.memory 0 = .ok ns ∧ ns.get? 1 = some [97, 98, 99] := by
  intro i j cells s
  have hinsert : Opcode.ofCode? 5 = some (.data .insert) := by decide +kernel
  have hremove : Opcode.ofCode? 8 = some (.data .removeRange) := by decide +kernel
  obtain ⟨x, hinserts, hremoves, -⟩ :=
    edits_agree.2.1 [97, 98, 99] [120, 121] [1] [2] [3] 1 2 3 (by decide) rfl rfl rfl rfl rfl
      (by decide)
  have hfinds : i.Finds s cells [[120, 121], [97, 98, 99], [1]] :=
    ⟨rfl, by rintro (_ | _ | _ | n) v ⟨⟩ <;> rfl⟩
  obtain ⟨t, ht, hassigns⟩ := hinserts.run (o := {}) (a := 1) hinsert rfl hfinds rfl
  obtain ⟨_, ns, ⟨⟩, hns, hget⟩ := hassigns.cells
  have hfinds' : j.Finds t ns [x, [2], [1]] := by
    refine ⟨by rw [hassigns.exec, hns], ?_⟩
    rintro (_ | _ | _ | n) v ⟨⟩
    · rw [Instruction.value_of_address (a := 1) rfl, Namespace.load, hget]
      rfl
    · rw [Instruction.value_of_address (a := 3) rfl, Namespace.load, hget]
      rfl
    · rw [Instruction.value_of_address (a := 2) rfl, Namespace.load, hget]
      rfl
  obtain ⟨u, hu, hassigns'⟩ := hremoves.run (o := {}) (a := 1) hremove rfl hfinds' rfl
  obtain ⟨_, ns', -, hns', hget'⟩ := hassigns'.cells
  rw [hassigns.exec] at hns'
  exact ⟨t, u, ns', ht, hu, hns', hget' 1⟩

end CellMachine
