import CellMachine.Proofs.Machine.Footprint
import CellMachine.Proofs.Machine.Labels

/-!
# Conditional jumps

This module proves what the conditional jumps do (`Instruction.jumps`). The four kinds differ in how
a target is named, by the position in a cell or by a label, and in whether there is a second target.
A condition `Asks` something of the cells that the arguments 1 and 2 name, if these can be read as
it needs them; then the target that the answer selects is looked at, and the other one never is.
-/

namespace CellMachine

open Stateful

variable {i j : Instruction} {ns : Namespace} {p : Program} {n k : Nat}

/-! ## Conditions -/

theorem except_bind₂_eq_ok_iff {ε α β γ : Type} {x : Except ε α} {y : Except ε β} {g : α → β → γ}
    {c : γ} : (do let a ← x; return g a (← y) : Except ε γ) = .ok c ↔
      ∃ a b, x = .ok a ∧ y = .ok b ∧ g a b = c := by
  simp only [except_bind_eq_ok_iff, pure, Except.pure, Except.ok.injEq, exists_and_left]

def Comparison.Rel {α : Type} [LT α] [LE α] (c : Comparison) (a b : α) : Prop :=
  match c with
  | gt => b < a
  | lt => a < b
  | ge => b ≤ a
  | le => a ≤ b
  | eq => a = b

theorem Comparison.holds_compare_iff {α : Type} [Ord α] [LT α] [LE α] [Std.LawfulOrderOrd α]
    [Std.LawfulOrderLT α] [Std.LawfulEqOrd α] (c : Comparison) (a b : α) :
    c.holds (some (Ord.compare a b)) = true ↔ c.Rel a b := by
  cases c with
  | gt => simp [holds, Rel, Std.compare_eq_gt]
  | lt => simp [holds, Rel, Std.compare_eq_lt]
  | ge => simp [holds, Rel, ← Ordering.isGE_iff_ne_lt, Std.isGE_compare]
  | le => simp [holds, Rel, ← Ordering.isLE_iff_ne_gt, Std.isLE_compare]
  | eq => simp [holds, Rel]

theorem Comparison.holds_compare?_iff (c : Comparison) (x y : Binary32) :
    c.holds (x.compare? y) = true ↔
      x.isNaN = false ∧ y.isNaN = false ∧ c.Rel x.place y.place := by
  unfold Binary32.compare?
  split
  · rename_i h
    have hnone : c.holds none = false := by cases c <;> rfl
    rw [hnone]
    simp only [Bool.or_eq_true] at h
    rcases h with h | h <;> simp [h]
  · rename_i h
    rw [holds_compare_iff]
    simp_all

theorem Bytes.hasInfix_iff {needle hay : Bytes} : hasInfix needle hay = true ↔ needle <:+: hay := by
  induction hay with
  | nil => simp [hasInfix]
  | cons b rest ih => simp [hasInfix, ih, List.infix_cons_iff]

namespace Condition

/-- The cells that the arguments 1 and 2 name can be read as the condition needs them, and this is
what it asks. Floats compare by their places on the line, where a NaN has none. -/
inductive Asks (i : Instruction) (ns : Namespace) : Condition → Prop → Prop where
  | always : Asks i ns always True
  | same {a b : Bytes} (ha : i.value ns 1 = .ok a) (hb : i.value ns 2 = .ok b) :
    Asks i ns same (a = b)
  | differ {a b : Bytes} (ha : i.value ns 1 = .ok a) (hb : i.value ns 2 = .ok b) :
    Asks i ns differ (a ≠ b)
  | float {c : Comparison} {x y : Binary32} (hx : i.float ns 1 = .ok x)
    (hy : i.float ns 2 = .ok y) :
    Asks i ns (float c) (x.isNaN = false ∧ y.isNaN = false ∧ c.Rel x.place y.place)
  | uint {c : Comparison} {x y : UInt32} (hx : i.uint ns 1 = .ok x) (hy : i.uint ns 2 = .ok y) :
    Asks i ns (uint c) (c.Rel x y)
  | within {a b : Bytes} (ha : i.value ns 1 = .ok a) (hb : i.value ns 2 = .ok b) :
    Asks i ns within (a <:+: b)

/-- A condition that is decided has asked something, and the answer is right. -/
theorem holds_eq_ok_iff {c : Condition} {answer : Bool} :
    c.holds i ns = .ok answer ↔ ∃ P, c.Asks i ns P ∧ (answer = true ↔ P) := by
  constructor
  · intro h
    cases c with
    | always =>
      cases h
      exact ⟨True, .always, by simp⟩
    | same =>
      rcases except_bind₂_eq_ok_iff.1 h with ⟨a, b, ha, hb, rfl⟩
      exact ⟨a = b, .same ha hb, beq_iff_eq⟩
    | differ =>
      rcases except_bind₂_eq_ok_iff.1 h with ⟨a, b, ha, hb, rfl⟩
      exact ⟨a ≠ b, .differ ha hb, bne_iff_ne⟩
    | float c =>
      rcases except_bind₂_eq_ok_iff.1 h with ⟨x, y, hx, hy, rfl⟩
      exact ⟨_, .float hx hy, c.holds_compare?_iff x y⟩
    | uint c =>
      rcases except_bind₂_eq_ok_iff.1 h with ⟨x, y, hx, hy, rfl⟩
      exact ⟨_, .uint hx hy, c.holds_compare_iff x y⟩
    | within =>
      rcases except_bind₂_eq_ok_iff.1 h with ⟨hay, needle, hhay, hneedle, rfl⟩
      exact ⟨_, .within hneedle hhay, Bytes.hasInfix_iff⟩
  · rintro ⟨P, hP, h⟩
    cases hP with
    | always => simp [holds, h.2 trivial, pure, Except.pure]
    | same ha hb | differ ha hb | float ha hb | uint ha hb | within hb ha =>
      refine except_bind₂_eq_ok_iff.2 ⟨_, _, ha, hb, ?_⟩
      rw [Bool.eq_iff_iff, h]
      simp [Comparison.holds_compare?_iff, Comparison.holds_compare_iff, Bytes.hasInfix_iff]

def codes : Condition → List Nat
  | always => [20, 126]
  | same => [21, 64, 127, 133]
  | differ => [128, 142]
  | float .gt => [22, 65, 129, 134]
  | float .lt => [23, 66, 130, 135]
  | float .ge => [24, 67, 131, 136]
  | float .le => [25, 68, 132, 137]
  | float .eq => [71, 72]
  | uint .gt => [138]
  | uint .lt => [139]
  | uint .ge => [140]
  | uint .le => [141]
  | uint .eq => []
  | within => [98]

end Condition

/-! ## Kinds of jumps -/

/-- What a jump depends on, how its targets are named, and whether there are two. -/
structure JumpForm where
  condition : Condition
  byLabel : Bool
  twoWay : Bool
  deriving DecidableEq

namespace Opcode

def form? : Opcode → Option JumpForm
  | jump c => some ⟨c, false, false⟩
  | branch c => some ⟨c, false, true⟩
  | jumpLabel c => some ⟨c, true, false⟩
  | branchLabel c => some ⟨c, true, true⟩
  | _ => none

def jumpCodes : List Nat :=
  List.range' 20 6 ++ List.range' 64 5 ++ [71, 72, 98] ++ List.range' 126 17

/-- The numbers of those that name their targets by labels. -/
def labelJumpCodes : List Nat := List.range' 126 17

def twoWayCodes : List Nat := List.range' 64 5 ++ [71, 98] ++ List.range' 133 10

/-- The form of an opcode is told by the lists that its number is in. -/
theorem mem_codes_of_form? {code : UInt32} {op : Opcode} {F : JumpForm}
    (hop : ofCode? code = some op) (hF : op.form? = some F) :
    code.toNat ∈ F.condition.codes ∧ (F.byLabel = true ↔ code.toNat ∈ labelJumpCodes) ∧
      (F.twoWay = true ↔ code.toNat ∈ twoWayCodes) := by
  have hentries : ∀ e ∈ table, ∀ F ∈ e.op.form?, e.code ∈ F.condition.codes ∧
      (F.byLabel = true ↔ e.code ∈ labelJumpCodes) ∧ (F.twoWay = true ↔ e.code ∈ twoWayCodes) := by
    decide +kernel
  rcases exists_mem_table_of_ofCode? hop with ⟨e, he, hcode, rfl⟩
  rw [← hcode]
  exact hentries e he F hF

theorem exists_form?_of_mem {code : UInt32} (h : code.toNat ∈ jumpCodes) :
    ∃ op F, ofCode? code = some op ∧ op.form? = some F := by
  have hlisted : ∀ n ∈ jumpCodes, ((ofCode? (UInt32.ofNat n)).bind form?).isSome := by
    decide +kernel
  have hcode := hlisted _ h
  rw [UInt32.ofNat_toNat] at hcode
  rcases Option.isSome_iff_exists.1 hcode with ⟨F, hF⟩
  rcases Option.bind_eq_some_iff.1 hF with ⟨op, hop, hform⟩
  exact ⟨op, F, hop, hform⟩

end Opcode

/-! ## Where a jump leads -/

namespace JumpForm

/-- The position of the target that the argument `n` names. -/
def aim (F : JumpForm) (i : Instruction) (p : Program) (ns : Namespace) (n : Nat) :
    Except Fault Nat :=
  if F.byLabel then Action.label i p n else Action.target i p.size ns n

/-- Where a jump leads that knows what its condition came to. -/
def land (F : JumpForm) (i : Instruction) (p : Program) (ns : Namespace) (holds : Bool) :
    Except Fault Flow := do
  if holds then return .jump (← F.aim i p ns 0)
  else if F.twoWay then return .jump (← F.aim i p ns 3)
  else return .next

def flow (F : JumpForm) (i : Instruction) (p : Program) (ns : Namespace) : Except Fault Flow := do
  F.land i p ns (← F.condition.holds i ns)

end JumpForm

/-- Something that is read off the cells, and then worked on when they are no longer held. -/
theorem Action.reading_bind {α β : Type} {f : Namespace → Except Fault α} {k : α → Action β}
    {g : α → Except Fault β} (hk : ∀ a, k a = ofExcept (g a)) (s : Focus) :
    (reading f >>= k) s = reading (fun ns => f ns >>= g) s := by
  have hreading : ∀ ns, (ofExcept (f ns) >>= k) s = ofExcept (f ns >>= g) s := by
    intro ns
    cases f ns with
    | error e => rfl
    | ok a =>
      change k a s = _
      rw [hk]
      rfl
  change ((ofExcept (s.world.table.memory s.exec.active) >>= fun ns => ofExcept (f ns)) >>= k) s =
    (ofExcept (s.world.table.memory s.exec.active) >>= fun ns => ofExcept (f ns >>= g)) s
  cases s.world.table.memory s.exec.active with
  | error e => rfl
  | ok ns => exact hreading ns

/-- The target of a jump is found like any other value. -/
theorem Action.jump_ofExcept (r : Except Fault Nat) :
    (ofExcept r >>= fun k => return .jump k) = ofExcept (r >>= fun k => return Flow.jump k) := by
  cases r <;> rfl

theorem Action.jumpLabel_eq (c : Condition) (i : Instruction) (s : Focus) :
    jumpLabel c i s = reading (JumpForm.flow ⟨c, true, false⟩ i s.exec.program) s := by
  -- A label is looked up when the cells are no longer held, so that it does not matter which.
  refine reading_bind (g := JumpForm.land ⟨c, true, false⟩ i s.exec.program ∅) ?_ s
  intro holds
  cases holds with
  | true => exact jump_ofExcept _
  | false => rfl

theorem Action.branchLabel_eq (c : Condition) (i : Instruction) (s : Focus) :
    branchLabel c i s = reading (JumpForm.flow ⟨c, true, true⟩ i s.exec.program) s := by
  refine reading_bind (g := JumpForm.land ⟨c, true, true⟩ i s.exec.program ∅) ?_ s
  intro holds
  cases holds with
  | true => exact jump_ofExcept _
  | false => exact jump_ofExcept _

/-- A jump only tells where to go. -/
theorem Action.atOnce_of_reading {a : Action Flow} {f : Namespace → Except Fault Flow} {s : Focus}
    (h : a s = reading f s) : atOnce a s =
      match s.world.table.memory s.exec.active >>= f with
      | .ok flow => .ok (.flow flow) s
      | .error e => .error (.fault e) s := by
  cases hmemory : s.world.table.memory s.exec.active with
  | error e => exact atOnce_of_error (h.trans (bind_of_error (memory_of_error hmemory) _))
  | ok ns =>
    have ha := h.trans (bind_of_ok (memory_of_ok hmemory) _)
    change atOnce a s = match f ns with
      | .ok flow => .ok (.flow flow) s
      | .error e => .error (.fault e) s
    cases hf : f ns with
    | error e =>
      rw [hf] at ha
      exact atOnce_of_error ha
    | ok flow =>
      rw [hf] at ha
      exact atOnce_of_ok ha

/-- The kinds of jumps differ in their forms and in nothing else. -/
theorem Instruction.run_of_form? {op : Opcode} {F : JumpForm}
    (hop : Opcode.ofCode? i.opcode = some op) (hF : op.form? = some F) (o : Options) (s : Focus) :
    i.run o s =
      match s.world.table.memory s.exec.active >>= F.flow i s.exec.program with
      | .ok flow => .ok (.flow flow) s
      | .error e => .error (.fault e) s := by
  rw [run, hop]
  cases op with
  | jump c | branch c =>
    cases hF
    exact Action.atOnce_of_reading rfl
  | jumpLabel c =>
    cases hF
    exact Action.atOnce_of_reading (Action.jumpLabel_eq c i s)
  | branchLabel c =>
    cases hF
    exact Action.atOnce_of_reading (Action.branchLabel_eq c i s)
  | _ => cases hF

/-! ## What a jump looks at -/

/-- The argument `n` is a target of the jump: the position in the cell that it names, or the
position of the label that it is. -/
inductive Instruction.Aims (i : Instruction) (p : Program) (ns : Namespace) (n : Nat) : Nat → Prop
  | position {w : UInt32} (hi : i.opcode.toNat ∉ Opcode.labelJumpCodes)
    (hw : i.uint ns n = .ok w) (hbound : w.toNat < p.size) : Aims i p ns n w.toNat
  | label {name : Bytes} {k : Nat} (hi : i.opcode.toNat ∈ Opcode.labelJumpCodes)
    (hname : i.arg n = .ok name) (hk : p.label? name = some k) : Aims i p ns n k

/-- Where a jump goes on the cells `ns`: to its first target if the condition holds, and if not to
its second one, or to the next instruction if it has none. -/
inductive Instruction.Goes (i : Instruction) (p : Program) (ns : Namespace) (c : Condition) :
    Flow → Prop
  | first {P : Prop} {k : Nat} (hc : c.Asks i ns P) (hP : P) (hk : i.Aims p ns 0 k) :
    Goes i p ns c (.jump k)
  | second {P : Prop} {k : Nat} (hi : i.opcode.toNat ∈ Opcode.twoWayCodes) (hc : c.Asks i ns P)
    (hP : ¬P) (hk : i.Aims p ns 3 k) : Goes i p ns c (.jump k)
  | next {P : Prop} (hi : i.opcode.toNat ∉ Opcode.twoWayCodes) (hc : c.Asks i ns P) (hP : ¬P) :
    Goes i p ns c .next

/-- The argument `n` may be replaced with anything: the instruction comes to the same. -/
def Instruction.Ignores (i : Instruction) (o : Options) (s : Focus) (n : Nat) : Prop :=
  ∀ j : Instruction, j.opcode = i.opcode → (∀ m, m ≠ n → j.args[m]? = i.args[m]?) →
    j.run o s = i.run o s

theorem Action.target_eq_ok_iff {size : Nat} : Action.target i size ns n = .ok k ↔
    ∃ w, i.uint ns n = .ok w ∧ w.toNat < size ∧ w.toNat = k := by
  have hcheck : ∀ m, checkTarget m size = .ok k ↔ m < size ∧ m = k := by
    intro m
    unfold checkTarget
    split <;> simp [*]
  simp only [target, except_bind_eq_ok_iff, hcheck]

theorem Action.label_eq_ok_iff : Action.label i p n = .ok k ↔
    ∃ name, i.arg n = .ok name ∧ p.label? name = some k := by
  rw [label, except_bind_eq_ok_iff]
  refine exists_congr fun name => and_congr_right fun _ => ?_
  cases p.label? name with
  | none => exact ⟨nofun, nofun⟩
  | some m => simp [pure, Except.pure]

namespace JumpForm

variable {F : JumpForm}

theorem aim_eq_ok_iff (hlabel : F.byLabel = true ↔ i.opcode.toNat ∈ Opcode.labelJumpCodes) :
    F.aim i p ns n = .ok k ↔ i.Aims p ns n k := by
  unfold aim
  split
  · rename_i h
    rw [Action.label_eq_ok_iff]
    constructor
    · rintro ⟨name, hname, hk⟩
      exact .label (hlabel.1 h) hname hk
    · intro haims
      cases haims with
      | position hi hw hbound => exact absurd (hlabel.1 h) hi
      | label hi hname hk => exact ⟨_, hname, hk⟩
  · rename_i h
    rw [Action.target_eq_ok_iff]
    constructor
    · rintro ⟨w, hw, hbound, rfl⟩
      exact .position (fun hi => h (hlabel.2 hi)) hw hbound
    · intro haims
      cases haims with
      | position hi hw hbound => exact ⟨_, hw, hbound, rfl⟩
      | label hi hname hk => exact absurd (hlabel.2 hi) h

theorem flow_eq_ok_iff {f : Flow}
    (hlabel : F.byLabel = true ↔ i.opcode.toNat ∈ Opcode.labelJumpCodes)
    (htwo : F.twoWay = true ↔ i.opcode.toNat ∈ Opcode.twoWayCodes) :
    F.flow i p ns = .ok f ↔ i.Goes p ns F.condition f := by
  have hjump : ∀ n, (do return Flow.jump (← F.aim i p ns n) : Except Fault Flow) = .ok f ↔
      ∃ k, i.Aims p ns n k ∧ .jump k = f := by
    intro n
    simp only [except_bind_eq_ok_iff, aim_eq_ok_iff hlabel, pure, Except.pure, Except.ok.injEq]
  simp only [flow, except_bind_eq_ok_iff, Condition.holds_eq_ok_iff]
  constructor
  · rintro ⟨answer, ⟨P, hc, hP⟩, hland⟩
    cases answer with
    | true =>
      rcases (hjump 0).1 hland with ⟨k, hk, rfl⟩
      exact .first hc (hP.1 rfl) hk
    | false =>
      have hnot : ¬P := fun h => Bool.false_ne_true (hP.2 h)
      cases hF : F.twoWay with
      | true =>
        rw [land, if_neg Bool.false_ne_true, if_pos hF] at hland
        rcases (hjump 3).1 hland with ⟨k, hk, rfl⟩
        exact .second (htwo.1 hF) hc hnot hk
      | false =>
        rw [land, if_neg Bool.false_ne_true, if_neg (by simp [hF])] at hland
        cases hland
        exact .next (fun hi => by simp [htwo.2 hi] at hF) hc hnot
  · intro hgoes
    cases hgoes with
    | first hc hP hk => exact ⟨true, ⟨_, hc, by simp [hP]⟩, (hjump 0).2 ⟨_, hk, rfl⟩⟩
    | second hi hc hP hk =>
      refine ⟨false, ⟨_, hc, by simp [hP]⟩, ?_⟩
      rw [land, if_neg Bool.false_ne_true, if_pos (htwo.2 hi)]
      exact (hjump 3).2 ⟨_, hk, rfl⟩
    | next hi hc hP =>
      refine ⟨false, ⟨_, hc, by simp [hP]⟩, ?_⟩
      rw [land, if_neg Bool.false_ne_true, if_neg fun hF => hi (htwo.1 hF)]
      rfl

end JumpForm

theorem Instruction.Aims.lt_size (hp : p.Labelled) (h : i.Aims p ns n k) : k < p.size := by
  cases h with
  | position hi hw hbound => exact hbound
  | label hi hname hk => exact Program.lt_size_of_label? hp hk

theorem Instruction.Goes.lt_size {c : Condition} (hp : p.Labelled) (h : i.Goes p ns c (.jump k)) :
    k < p.size := by
  cases h with
  | first hc hP hk => exact hk.lt_size hp
  | second hi hc hP hk => exact hk.lt_size hp

/-! ## What a jump does not look at -/

namespace Instruction

theorem arg_congr (h : j.args[n]? = i.args[n]?) : j.arg n = i.arg n := by
  rw [arg, arg, h]

theorem value_eq_of_arg (h : j.arg n = i.arg n) : j.value ns n = i.value ns n := by
  rw [value, value, address, address, h]

end Instruction

theorem Condition.holds_eq_of_arg (c : Condition) (h₁ : j.arg 1 = i.arg 1)
    (h₂ : j.arg 2 = i.arg 2) : c.holds j ns = c.holds i ns := by
  have hv₁ : j.value ns 1 = i.value ns 1 := Instruction.value_eq_of_arg h₁
  have hv₂ : j.value ns 2 = i.value ns 2 := Instruction.value_eq_of_arg h₂
  simp only [holds, Instruction.float, Instruction.uint, hv₁, hv₂]

theorem JumpForm.aim_eq_of_arg (F : JumpForm) (h : j.arg n = i.arg n) :
    F.aim j p ns n = F.aim i p ns n := by
  simp only [aim, Action.label, Action.target, Instruction.uint, h, Instruction.value_eq_of_arg h]

/-- The arguments of a condition count, and of the targets the one that the condition selects. -/
theorem JumpForm.flow_eq_of_arg (F : JumpForm) (h₁ : j.arg 1 = i.arg 1) (h₂ : j.arg 2 = i.arg 2)
    (hfirst : F.condition.holds i ns = .ok true → j.arg 0 = i.arg 0)
    (hsecond : F.condition.holds i ns = .ok false → j.arg 3 = i.arg 3) :
    F.flow j p ns = F.flow i p ns := by
  unfold flow
  rw [F.condition.holds_eq_of_arg h₁ h₂]
  cases hholds : F.condition.holds i ns with
  | error e => rfl
  | ok answer =>
    change F.land j p ns answer = F.land i p ns answer
    cases answer with
    | true => simp only [land, F.aim_eq_of_arg (hfirst hholds), if_true]
    | false => simp only [land, F.aim_eq_of_arg (hsecond hholds), Bool.false_eq_true, if_false]

theorem Instruction.run_eq_of_flow {op : Opcode} {F : JumpForm} {s : Focus}
    (hop : Opcode.ofCode? i.opcode = some op) (hF : op.form? = some F) (hj : j.opcode = i.opcode)
    (o : Options) (h : ∀ ns, s.world.table.memory s.exec.active = .ok ns →
      F.flow j s.exec.program ns = F.flow i s.exec.program ns) : j.run o s = i.run o s := by
  rw [run_of_form? (hj ▸ hop) hF, run_of_form? hop hF]
  cases hmemory : s.world.table.memory s.exec.active with
  | error e => rfl
  | ok ns =>
    simp only [bind, Except.bind, h ns hmemory]

/-! ## Jumps -/

/-- A jump changes nothing, and fails or tells where to go. It goes to its first target exactly if
the condition holds and to its second one, or to the next instruction if it has none, exactly if it
does not; either target is a position of the program. The target that the condition does not select
may be replaced with anything, and so may both if the condition cannot be decided. -/
theorem Instruction.jumps {o : Options} {i : Instruction} {s : Focus}
    (hi : i.opcode.toNat ∈ Opcode.jumpCodes) (hs : s.exec.program.Built) :
    ∃ c : Condition, i.opcode.toNat ∈ c.codes ∧
      ((∃ e, i.run o s = .error (.fault e) s) ∨ ∃ f, i.run o s = .ok (.flow f) s) ∧
      (∀ f, i.run o s = .ok (.flow f) s ↔ ∃ ns,
        s.world.table.memory s.exec.active = .ok ns ∧ i.Goes s.exec.program ns c f) ∧
      (∀ k, i.run o s = .ok (.flow (.jump k)) s → k < s.exec.program.size) ∧
      ((∀ ns P, s.world.table.memory s.exec.active = .ok ns → c.Asks i ns P → ¬P) →
        i.Ignores o s 0) ∧
      ((∀ ns P, s.world.table.memory s.exec.active = .ok ns → c.Asks i ns P → P) →
        i.Ignores o s 3) := by
  rcases Opcode.exists_form?_of_mem hi with ⟨op, F, hop, hF⟩
  rcases Opcode.mem_codes_of_form? hop hF with ⟨hcodes, hlabel, htwo⟩
  have hrun := run_of_form? hop hF o s
  have hflow : ∀ f, i.run o s = .ok (.flow f) s ↔ ∃ ns,
      s.world.table.memory s.exec.active = .ok ns ∧ i.Goes s.exec.program ns F.condition f := by
    intro f
    rw [hrun]
    cases hmemory : s.world.table.memory s.exec.active with
    | error e => simp [bind, Except.bind]
    | ok ns =>
      simp only [Except.ok.injEq, exists_eq_left', ← JumpForm.flow_eq_ok_iff hlabel htwo]
      simp only [bind, Except.bind]
      cases F.flow i s.exec.program ns <;> simp
  refine ⟨F.condition, hcodes, ?_, hflow, ?_, ?_, ?_⟩
  · rw [hrun]
    split
    · exact .inr ⟨_, rfl⟩
    · exact .inl ⟨_, rfl⟩
  · intro k hk
    rcases (hflow _).1 hk with ⟨ns, -, hgoes⟩
    exact hgoes.lt_size hs.labelled
  · intro hfalse j hj hargs
    refine run_eq_of_flow hop hF hj o fun ns hmemory => ?_
    refine F.flow_eq_of_arg (arg_congr (hargs 1 (by decide))) (arg_congr (hargs 2 (by decide))) ?_
      fun _ => arg_congr (hargs 3 (by decide))
    intro hholds
    rcases Condition.holds_eq_ok_iff.1 hholds with ⟨P, hc, hP⟩
    exact absurd (hP.1 rfl) (hfalse ns P hmemory hc)
  · intro htrue j hj hargs
    refine run_eq_of_flow hop hF hj o fun ns hmemory => ?_
    refine F.flow_eq_of_arg (arg_congr (hargs 1 (by decide))) (arg_congr (hargs 2 (by decide)))
      (fun _ => arg_congr (hargs 0 (by decide))) ?_
    intro hholds
    rcases Condition.holds_eq_ok_iff.1 hholds with ⟨P, hc, hP⟩
    exact absurd (hP.2 (htrue ns P hmemory hc)) Bool.false_ne_true

/-- Two cells hold the same, and nothing is at the address that the second target has. -/
theorem Instruction.jumps_same :
    let i : Instruction := ⟨0, 64, [Bytes.ofWord 0, Bytes.ofWord 1, Bytes.ofWord 2, Bytes.ofWord 9]⟩
    let cells : Namespace := .ofList [(0, [1]), (1, [120]), (2, [120])]
    let s : Focus := ⟨{ table := OrderedMap.empty.insert 0 ⟨cells, none⟩ },
      { program := .ofList [i, i], active := 0 }⟩
    i.opcode.toNat ∈ Opcode.jumpCodes ∧ s.exec.program.Built ∧
      i.run {} s = .ok (.flow (.jump 1)) s ∧ 1 < s.exec.program.size ∧ i.Ignores {} s 3 := by
  intro i cells s
  have hi : i.opcode.toNat ∈ Opcode.jumpCodes := by decide
  have hs : s.exec.program.Built := ⟨[i, i], rfl⟩
  have hrun : i.run {} s = .ok (.flow (.jump 1)) s := rfl
  rcases Instruction.jumps (o := {}) hi hs with ⟨c, hc, -, -, hbound, -, hignores⟩
  obtain rfl : c = .same := by
    cases c with
    | same => rfl
    | float c | uint c => cases c <;> exact absurd hc (by decide)
    | _ => exact absurd hc (by decide)
  refine ⟨hi, hs, hrun, hbound 1 hrun, hignores ?_⟩
  intro ns P hmemory hP
  cases hmemory
  cases hP with
  | same ha hb =>
    cases ha
    cases hb
    rfl

end CellMachine
