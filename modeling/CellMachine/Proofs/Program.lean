import CellMachine.Program
import CellMachine.Proofs.Instruction
import Mathlib.Data.List.Induction
import Mathlib.Data.Multiset.AddSub
import Mathlib.Order.Bounds.Basic

/-!
# Labels and parts of programs

This module proves what the label table of a program holds, and what becomes of the instructions of
a program when a part of it is taken out: none is lost and none is doubled, and every position of
what is left can be traced back to where its instruction stood before.
-/

namespace CellMachine

open scoped List

namespace Program

variable {p : Program} {is : List Instruction} {first past : Nat}

/-- A size is a number of instructions. -/
@[simp] theorem size_ofList (is : List Instruction) : (ofList is).size = is.length := rfl

@[simp] theorem get?_ofList (is : List Instruction) (k : Nat) : (ofList is).get? k = is[k]? := rfl

theorem decode_encodeAll {is : List Instruction} (h : ∀ i ∈ is, i.Fits) :
    decode (Instruction.encodeAll is) = .ok (ofList is) := by
  rw [decode, Instruction.decodeAll_encodeAll h]
  rfl

/-! ## Labels -/

/-- The instruction at the position `k` is a label with the name. -/
def Marks (p : Program) (name : Bytes) (k : Nat) : Prop :=
  ∃ i, p.get? k = some i ∧ i.opcode = labelCode ∧ i.args.head? = some name

/-- The label table has the position of the last label with a name, and nothing else. -/
def Labelled (p : Program) : Prop :=
  ∀ name n, p.label? name = some n ↔ IsGreatest {k | p.Marks name k} n

theorem definedLabels_concat (is : List Instruction) (i : Instruction) :
    definedLabels (is ++ [i]) = definedLabels is ++
      if i.opcode = labelCode then (i.args.head?.map (·, is.length)).toList else [] := by
  unfold definedLabels
  rw [List.zipIdx_append, List.filterMap_append]
  congr 1
  simp only [List.zipIdx_singleton, Nat.zero_add, List.filterMap_cons, List.filterMap_nil]
  by_cases hcode : i.opcode = labelCode
  · rw [if_pos hcode, if_pos hcode]
    cases i.args.head? <;> rfl
  · rw [if_neg hcode, if_neg hcode]

/-- An instruction at the end of a program counts before all others with its name. -/
theorem label?_concat (is : List Instruction) (i : Instruction) (name : Bytes) :
    (ofList (is ++ [i])).label? name =
      if i.opcode = labelCode ∧ i.args.head? = some name then some is.length
      else (ofList is).label? name := by
  unfold label? ofList OrderedMap.ofList OrderedMap.insertMany
  rw [definedLabels_concat, List.foldl_append]
  by_cases hcode : i.opcode = labelCode
  · cases hhead : i.args.head? with
    | none => simp [hcode]
    | some other =>
      have hinsert := OrderedMap.get?_insert
        ((definedLabels is).foldl (fun m e => m.insert e.1 e.2) (OrderedMap.empty : LabelTable))
        other name is.length
      simpa [hcode, eq_comm] using hinsert
  · simp [hcode]

theorem marks_concat_iff (is : List Instruction) (i : Instruction) (name : Bytes) (k : Nat) :
    (ofList (is ++ [i])).Marks name k ↔
      (ofList is).Marks name k ∨
        k = is.length ∧ i.opcode = labelCode ∧ i.args.head? = some name := by
  unfold Marks
  simp only [get?_ofList]
  rcases Nat.lt_trichotomy k is.length with hk | rfl | hk
  · simp [List.getElem?_append_left hk, Nat.ne_of_lt hk]
  · simp
  · have hk' : is.length + 1 ≤ k := hk
    simp [List.getElem?_eq_none_iff.2 (by simpa using hk' : (is ++ [i]).length ≤ k),
      List.getElem?_eq_none_iff.2 (Nat.le_of_lt hk), Nat.ne_of_gt hk]

/-- The label table of a program that is built from its instructions is right. -/
theorem labelled_ofList (is : List Instruction) : (ofList is).Labelled := by
  -- Instruction by instruction from the front, as the table is built.
  induction is using List.reverseRecOn with
  | nil =>
    intro name n
    constructor
    · rintro ⟨⟩
    · rintro ⟨⟨i, ⟨⟩, -⟩, -⟩
  | append_singleton is i ih =>
    intro name n
    rw [label?_concat]
    have hbound (k : Nat) (hk : (ofList is).Marks name k) : k ≤ is.length := by
      rcases hk with ⟨i', hi', -⟩
      exact Nat.le_of_lt (List.getElem?_eq_some_iff.1 hi').1
    by_cases hlast : i.opcode = labelCode ∧ i.args.head? = some name
    · rw [if_pos hlast]
      have hgreatest : IsGreatest {k | (ofList (is ++ [i])).Marks name k} is.length := by
        refine ⟨(marks_concat_iff is i name _).2 (.inr ⟨rfl, hlast⟩), ?_⟩
        intro k hk
        rcases (marks_concat_iff is i name k).1 hk with hk | ⟨rfl, -⟩
        · exact hbound k hk
        · exact Nat.le_refl _
      constructor
      · rintro ⟨⟩
        exact hgreatest
      · intro hn
        rw [hgreatest.unique hn]
    · rw [if_neg hlast, ih name n]
      have hsame : {k | (ofList (is ++ [i])).Marks name k} = {k | (ofList is).Marks name k} :=
        Set.ext fun k => (marks_concat_iff is i name k).trans (or_iff_left fun h => hlast h.2)
      rw [hsame]

/-- A label names a position of the program. -/
theorem lt_size_of_label? (h : p.Labelled) {name : Bytes} {n : Nat} (hn : p.label? name = some n) :
    n < p.size := by
  rcases (h name n).1 hn with ⟨⟨i, hi, -⟩, -⟩
  exact (List.getElem?_eq_some_iff.1 hi).1

/-! ## Parts -/

/-- Where the instruction at the position `q` of what is left has stood, if the instructions from
`first` up to `past` were taken out. -/
def origin (first past q : Nat) : Nat := if q < first then q else q + (past - first)

/-- No instruction is lost and none is doubled. -/
theorem cut_instructions (p : Program) (h : first ≤ past) :
    ((p.cut first past).1.instructions : Multiset Instruction) + (p.cut first past).2.instructions =
      p.instructions := by
  have hfirst : (p.instructions.take past).take first = p.instructions.take first := by
    rw [List.take_take, Nat.min_eq_left h]
  have hwhole : (p.instructions.take first ++ (p.instructions.take past).drop first) ++
      p.instructions.drop past = p.instructions := by
    rw [← hfirst, List.take_append_drop, List.take_append_drop]
  have hperm : (p.instructions.take first ++ p.instructions.drop past) ++
      (p.instructions.take past).drop first ~ p.instructions := by
    calc (p.instructions.take first ++ p.instructions.drop past) ++
          (p.instructions.take past).drop first
        ~ (p.instructions.take first ++ (p.instructions.take past).drop first) ++
            p.instructions.drop past := by
          rw [List.append_assoc, List.append_assoc]
          exact List.perm_append_comm.append_left _
      _ = p.instructions := hwhole
  exact Multiset.coe_eq_coe.2 hperm

theorem size_cut (p : Program) (h : first ≤ past) (hpast : past ≤ p.size) :
    (p.cut first past).1.size = p.size - (past - first) := by
  simp only [cut, size_ofList, List.length_append, List.length_take, List.length_drop]
  simp only [size] at hpast ⊢
  omega

theorem get?_cut (p : Program) (h : first ≤ past) (hpast : past ≤ p.size) (q : Nat) :
    (p.cut first past).1.get? q = p.get? (origin first past q) := by
  have hlength : (p.instructions.take first).length = first := by
    simp only [size] at hpast
    simp only [List.length_take]
    omega
  change (p.instructions.take first ++ p.instructions.drop past)[q]? = p.instructions[_]?
  unfold origin
  by_cases hq : q < first
  · rw [if_pos hq, List.getElem?_append_left (by omega), List.getElem?_take_of_lt hq]
  · rw [if_neg hq, List.getElem?_append_right (by omega), hlength, List.getElem?_drop]
    congr 1
    omega

/-- The next instruction of what is left is the first one that has stood further on and has not been
taken out. -/
theorem isLeast_origin (h : first ≤ past) (q : Nat) :
    IsLeast {k | origin first past q < k ∧ ¬(first ≤ k ∧ k < past)}
      (origin first past (q + 1)) := by
  unfold origin
  refine ⟨⟨?_, ?_⟩, ?_⟩
  · split <;> split <;> omega
  · split <;> omega
  · rintro k ⟨hk, houtside⟩
    split at hk <;> split <;> omega

end Program

end CellMachine
