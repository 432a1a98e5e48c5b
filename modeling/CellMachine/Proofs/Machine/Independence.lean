import CellMachine.Proofs.Machine.Footprint
import Mathlib.Logic.Function.Basic

/-!
# Independent instructions

This module proves that executors do not disturb each other whose instructions name all their cells
and set or delete none that another executor uses. Two such instructions may change places; so an
instruction may be moved before all that other executors run before it, and every interleaving comes
to the same as any other.
-/

namespace CellMachine

/-! ## Executors side by side -/

structure Crew (κ : Type) where
  world : World
  member : κ → Executor

def part {κ α : Type} [DecidableEq κ] (k : κ) (l : List (κ × α)) : List α :=
  l.filterMap fun z => if z.1 = k then some z.2 else none

section Part

variable {κ α : Type} [DecidableEq κ] {k k' : κ} {a : α}

theorem part_cons_self (k : κ) (a : α) (l : List (κ × α)) : part k ((k, a) :: l) = a :: part k l :=
  List.filterMap_cons_some (if_pos rfl)

theorem part_cons_of_ne (h : k' ≠ k) (a : α) (l : List (κ × α)) :
    part k ((k', a) :: l) = part k l :=
  List.filterMap_cons_none (if_neg h)

theorem part_append (k : κ) (l l' : List (κ × α)) : part k (l ++ l') = part k l ++ part k l' :=
  List.filterMap_append

theorem mem_part {l : List (κ × α)} : a ∈ part k l ↔ (k, a) ∈ l := by
  constructor
  · intro h
    rcases List.mem_filterMap.1 h with ⟨z, hz, ha⟩
    rcases z with ⟨k', b⟩
    split_ifs at ha with hk
    · cases ha
      cases hk
      exact hz
  · intro h
    exact List.mem_filterMap.2 ⟨(k, a), h, if_pos rfl⟩

/-- The first of what is marked with a key comes after things that are marked otherwise. -/
theorem exists_append_of_part {l : List (κ × α)} {as : List α} (h : part k l = a :: as) :
    ∃ pre post, l = pre ++ (k, a) :: post ∧ ∀ z ∈ pre, z.1 ≠ k := by
  induction l with
  | nil => cases h
  | cons z l ih =>
    rcases z with ⟨k', b⟩
    by_cases hk : k' = k
    · cases hk
      rw [part_cons_self] at h
      cases h
      exact ⟨[], l, rfl, fun z hz => absurd hz List.not_mem_nil⟩
    · rw [part_cons_of_ne hk] at h
      rcases ih h with ⟨pre, post, rfl, hpre⟩
      refine ⟨(k', b) :: pre, post, rfl, fun z hz => ?_⟩
      rcases List.mem_cons.1 hz with rfl | hz
      · exact hk
      · exact hpre z hz

theorem part_of_ne {l : List (κ × α)} (h : ∀ z ∈ l, z.1 ≠ k) : part k l = [] :=
  List.filterMap_eq_nil_iff.2 fun z hz => if_neg (h z hz)

theorem eq_nil_of_part {l : List (κ × α)} (h : ∀ k, part k l = []) : l = [] := by
  cases l with
  | nil => rfl
  | cons z l =>
    have hz := h z.1
    rw [part_cons_self] at hz
    cases hz

/-- The first of what is marked with a key may be taken away on both sides. -/
theorem part_append_of_cons {l pre post : List (κ × α)} (hpre : ∀ z ∈ pre, z.1 ≠ k)
    (h : ∀ k', part k' (pre ++ (k, a) :: post) = part k' ((k, a) :: l)) (k' : κ) :
    part k' (pre ++ post) = part k' l := by
  have hk' := h k'
  rw [part_append] at hk' ⊢
  by_cases hk : k = k'
  · cases hk
    rw [part_of_ne hpre, part_cons_self, part_cons_self] at hk'
    rw [part_of_ne hpre]
    exact (List.cons.inj hk').2
  · rwa [part_cons_of_ne hk, part_cons_of_ne hk] at hk'

end Part

namespace Crew

variable {κ : Type} [DecidableEq κ]

def put (c : Crew κ) (k : κ) (s : Focus) : Crew κ :=
  ⟨s.world, Function.update c.member k s.exec⟩

def step (o : Options) (c : Crew κ) (k : κ) (i : Instruction) : Except Abort Turn × Crew κ :=
  match Action.runInstruction o i ⟨c.world, c.member k⟩ with
  | .ok t s => (.ok t, c.put k s)
  | .error e s => (.error e, c.put k s)

/-- The members run instructions one after the other, and those that fail keep none from being run.
For each instruction it is told what it came to. -/
def play (o : Options) : Crew κ → List (κ × Instruction) → List (κ × Except Abort Turn) × Crew κ
  | c, [] => ([], c)
  | c, (k, i) :: zs =>
    let r := c.step o k i
    let rest := r.2.play o zs
    ((k, r.1) :: rest.1, rest.2)

/-- The cells of the namespace that is active for a member. -/
def memory (c : Crew κ) (k : κ) : Except Fault Namespace := c.world.table.memory (c.member k).active

def Unbound (c : Crew κ) : Prop := ∀ k, c.world.table.handler? (c.member k).active = none

/-- The instruction `i` of the member `k` sets or deletes no cell that the instruction `j` of the
member `l` reads, sets or deletes. -/
def Spares (c : Crew κ) (k : κ) (i : Instruction) (l : κ) (j : Instruction) : Prop :=
  (c.member k).active = (c.member l).active → ∀ a ∈ i.writes, a ∉ j.reads ∧ a ∉ j.writes

-- What is gone through are the cells that the instruction changes, and not all that there are.
instance (c : Crew κ) (k : κ) (i : Instruction) (l : κ) (j : Instruction) :
    Decidable (c.Spares k i l j) :=
  @instDecidableForall _ _ _ (List.decidableBAll (fun a => a ∉ j.reads ∧ a ∉ j.writes) i.writes)

/-- All instructions of different members spare each other. -/
def Independent (c : Crew κ) (zs : List (κ × Instruction)) : Prop :=
  ∀ k l, k ≠ l → ∀ i ∈ part k zs, ∀ j ∈ part l zs, c.Spares k i l j

/-- The crew after a member has changed a cell and gone on. -/
def patched (c : Crew κ) (k : κ) (p : Patch) : Crew κ where
  world := { c.world with table := c.world.table.patch (c.member k).active p }
  member := Function.update c.member k ((c.member k).follow .next)

variable {o : Options} {c : Crew κ} {k l : κ} {i j : Instruction} {p q : Patch}

theorem active_patched (c : Crew κ) (k l : κ) (p : Patch) :
    ((c.patched k p).member l).active = (c.member l).active := by
  change (Function.update c.member k _ l).active = _
  by_cases h : l = k
  · rw [h, Function.update_self]
    rfl
  · rw [Function.update_of_ne h]

theorem Unbound.patched (h : c.Unbound) (k : κ) (p : Patch) : (c.patched k p).Unbound := by
  intro l
  rw [active_patched]
  exact (Table.handler?_patch _ _ _ p).trans (h l)

theorem memory_patched (c : Crew κ) (k l : κ) (p : Patch) : (c.patched k p).memory l =
    (c.memory l).map fun ns =>
      if (c.member l).active = (c.member k).active then ns.patch p else ns := by
  rw [memory, active_patched]
  exact Table.memory_patch _ _ _ p

theorem patched_comm (hkl : k ≠ l)
    (h : (c.member k).active = (c.member l).active → p.address ≠ q.address) :
    (c.patched k p).patched l q = (c.patched l q).patched k p := by
  have hl : (c.patched k p).member l = c.member l := Function.update_of_ne hkl.symm _ _
  have hk : (c.patched l q).member k = c.member k := Function.update_of_ne hkl _ _
  unfold Crew.patched at hl hk ⊢
  rw [hl, hk, Table.patch_comm h, Function.update_comm hkl]

theorem step_eq (hi : i.footprint?.isSome) (hc : c.Unbound) (k : κ) : c.step o k i =
    match i.patch (c.memory k) with
    | .ok p => (.ok .ready, c.patched k p)
    | .error f => (.error (.fault f), c) := by
  have hrun := Action.runInstruction_eq (s := ⟨c.world, c.member k⟩) hi (hc k) o
  unfold step memory
  rw [hrun]
  dsimp only
  cases i.patch (c.world.table.memory (c.member k).active) with
  | ok p => rfl
  | error f =>
    dsimp only
    rw [put, Function.update_eq_self]

/-- An instruction fails, or it changes a cell. -/
theorem step_cases (hi : i.footprint?.isSome) (hc : c.Unbound) (k : κ) :
    (∃ f, i.patch (c.memory k) = .error f ∧ c.step o k i = (.error (.fault f), c)) ∨
      ∃ p, i.patch (c.memory k) = .ok p ∧ p.address ∈ i.writes ∧
        c.step o k i = (.ok .ready, c.patched k p) := by
  rw [step_eq hi hc]
  cases hpatch : i.patch (c.memory k) with
  | error f => exact .inl ⟨f, rfl, rfl⟩
  | ok p => exact .inr ⟨p, rfl, Instruction.address_mem_writes hi hpatch, rfl⟩

theorem Unbound.step (hc : c.Unbound) (hi : i.footprint?.isSome) (k : κ) :
    (c.step o k i).2.Unbound := by
  rcases step_cases (o := o) hi hc k with ⟨f, -, hstep⟩ | ⟨p, -, -, hstep⟩
  · rw [hstep]
    exact hc
  · rw [hstep]
    exact hc.patched k p

theorem active_step (hc : c.Unbound) (hi : i.footprint?.isSome) (k l : κ) :
    ((c.step o k i).2.member l).active = (c.member l).active := by
  rcases step_cases (o := o) hi hc k with ⟨f, -, hstep⟩ | ⟨p, -, -, hstep⟩
  · rw [hstep]
  · rw [hstep]
    exact active_patched c k l p

/-- An instruction does not depend on cells that are not its own. -/
theorem patch_patched (hj : j.footprint?.isSome) (hp : (c.member k).active = (c.member l).active →
    p.address ∉ j.reads ∧ p.address ∉ j.writes) :
    j.patch ((c.patched k p).memory l) = j.patch (c.memory l) := by
  rw [memory_patched]
  cases c.memory l with
  | error f => rfl
  | ok ns =>
    simp only [Except.map]
    split_ifs with hactive
    · rcases hp hactive.symm with ⟨hreads, hwrites⟩
      apply Instruction.patch_congr hj
      · intro a ha
        rw [Namespace.get?_patch, if_neg (ne_of_mem_of_not_mem ha hreads)]
      · intro a ha
        rw [Namespace.get?_patch, if_neg (ne_of_mem_of_not_mem ha hwrites)]
    · rfl

/-- What an instruction comes to is the same before and after one of another member. -/
theorem fst_step_step (hi : i.footprint?.isSome) (hj : j.footprint?.isSome) (hc : c.Unbound)
    (hij : c.Spares k i l j) :
    ((c.step o k i).2.step o l j).1 = (c.step o l j).1 := by
  rcases step_cases (o := o) hi hc k with ⟨f, -, hstep⟩ | ⟨p, -, hp, hstep⟩
  · rw [hstep]
  · have hpatch := patch_patched hj fun h => hij h p.address hp
    rw [hstep, step_eq hj (hc.patched k p), step_eq hj hc, hpatch]
    cases j.patch (c.memory l) with
    | ok q => rfl
    | error f => rfl

/-- Instructions of different members that are independent may change places. -/
theorem snd_step_step (hkl : k ≠ l) (hi : i.footprint?.isSome) (hj : j.footprint?.isSome)
    (hc : c.Unbound) (hij : c.Spares k i l j) (hji : c.Spares l j k i) :
    ((c.step o k i).2.step o l j).2 = ((c.step o l j).2.step o k i).2 := by
  rcases step_cases (o := o) hi hc k with ⟨f, hi', hk⟩ | ⟨p, hi', hp, hk⟩ <;>
    rcases step_cases (o := o) hj hc l with ⟨g, hj', hl⟩ | ⟨q, hj', hq, hl⟩
  · rw [hk, hl, hk]
  · have hi'' := (patch_patched hi fun h => hji h q.address hq).trans hi'
    rw [hk, hl, step_eq hi (hc.patched l q), hi'']
  · have hj'' := (patch_patched hj fun h => hij h p.address hp).trans hj'
    rw [hk, hl, hk, step_eq hj (hc.patched k p), hj'']
  · have hi'' := (patch_patched hi fun h => hji h q.address hq).trans hi'
    have hj'' := (patch_patched hj fun h => hij h p.address hp).trans hj'
    have hne : (c.member k).active = (c.member l).active → p.address ≠ q.address :=
      fun h hpq => (hij h p.address hp).2 (hpq ▸ hq)
    rw [hk, hl, step_eq hj (hc.patched k p), step_eq hi (hc.patched l q), hi'', hj'']
    exact patched_comm hkl hne

/-! ## Interleavings -/

variable {zs zs' pre post : List (κ × Instruction)}

/-- Two runs leave the same behind, and each member's instructions come to the same. -/
def Agree (r r' : List (κ × Except Abort Turn) × Crew κ) : Prop :=
  r.2 = r'.2 ∧ ∀ k, part k r.1 = part k r'.1

theorem Agree.trans {r r' r'' : List (κ × Except Abort Turn) × Crew κ} (h : Agree r r')
    (h' : Agree r' r'') : Agree r r'' :=
  ⟨h.1.trans h'.1, fun k => (h.2 k).trans (h'.2 k)⟩

theorem Agree.play_cons {i : Instruction} {k : κ}
    (h : Agree ((c.step o k i).2.play o zs) ((c.step o k i).2.play o zs')) :
    Agree (c.play o ((k, i) :: zs)) (c.play o ((k, i) :: zs')) := by
  refine ⟨h.1, fun l => ?_⟩
  change part l ((k, _) :: _) = part l ((k, _) :: _)
  by_cases hkl : k = l
  · cases hkl
    rw [part_cons_self, part_cons_self, h.2 k]
  · rw [part_cons_of_ne hkl, part_cons_of_ne hkl, h.2 l]

/-- The first two instructions may change places. -/
theorem agree_play_swap (hkl : k ≠ l) (hi : i.footprint?.isSome) (hj : j.footprint?.isSome)
    (hc : c.Unbound) (hij : c.Spares k i l j) (hji : c.Spares l j k i)
    (zs : List (κ × Instruction)) :
    Agree (c.play o ((l, j) :: (k, i) :: zs)) (c.play o ((k, i) :: (l, j) :: zs)) := by
  have hsnd := snd_step_step (o := o) hkl hi hj hc hij hji
  have hfst := fst_step_step (o := o) hi hj hc hij
  have hfst' := fst_step_step (o := o) hj hi hc hji
  unfold Agree
  simp only [play, hsnd, hfst, hfst', true_and]
  intro m
  by_cases hk : k = m
  · have hl : l ≠ m := hk ▸ hkl.symm
    cases hk
    rw [part_cons_of_ne hl, part_cons_self, part_cons_self, part_cons_of_ne hl]
  · rw [part_cons_of_ne hk]
    by_cases hl : l = m
    · cases hl
      rw [part_cons_self, part_cons_self, part_cons_of_ne hk]
    · rw [part_cons_of_ne hl, part_cons_of_ne hl, part_cons_of_ne hk]

theorem Independent.of_mem (h : c.Independent zs) (hkl : k ≠ l) (hi : (k, i) ∈ zs)
    (hj : (l, j) ∈ zs) : c.Spares k i l j :=
  h k l hkl i (mem_part.2 hi) j (mem_part.2 hj)

theorem Independent.step (h : c.Independent zs) (hzs : ∀ z ∈ zs', z ∈ zs) (hc : c.Unbound)
    (hi : i.footprint?.isSome) (k : κ) : (c.step o k i).2.Independent zs' := by
  intro l m hlm j hj j' hj'
  have hspares := h.of_mem hlm (hzs _ (mem_part.1 hj)) (hzs _ (mem_part.1 hj'))
  unfold Spares at hspares ⊢
  rwa [active_step hc hi k l, active_step hc hi k m]

/-- An instruction may be moved before instructions of other members. -/
theorem agree_play_move (hpre : ∀ z ∈ pre, z.1 ≠ k) (hc : c.Unbound)
    (hlisted : ∀ z ∈ pre ++ (k, i) :: post, z.2.footprint?.isSome)
    (hind : c.Independent (pre ++ (k, i) :: post)) :
    Agree (c.play o (pre ++ (k, i) :: post)) (c.play o ((k, i) :: (pre ++ post))) := by
  induction pre generalizing c with
  | nil => exact ⟨rfl, fun _ => rfl⟩
  | cons z pre ih =>
    rcases z with ⟨l, j⟩
    have hlk : l ≠ k := hpre _ List.mem_cons_self
    have hmem : (k, i) ∈ (l, j) :: (pre ++ (k, i) :: post) :=
      List.mem_cons_of_mem _ (List.mem_append_right _ List.mem_cons_self)
    have hj : j.footprint?.isSome := hlisted (l, j) List.mem_cons_self
    have hi : i.footprint?.isSome := hlisted (k, i) hmem
    have hrest := ih (c := (c.step o l j).2) (fun z hz => hpre z (List.mem_cons_of_mem _ hz))
      (hc.step hj l) (fun z hz => hlisted z (List.mem_cons_of_mem _ hz))
      (hind.step (fun z hz => List.mem_cons_of_mem _ hz) hc hj l)
    have hij := hind.of_mem hlk.symm hmem List.mem_cons_self
    have hji := hind.of_mem hlk List.mem_cons_self hmem
    exact hrest.play_cons.trans (agree_play_swap hlk.symm hi hj hc hij hji (pre ++ post))

/-- Runs of independent instructions agree if each member has the same instructions in the same
order. -/
theorem agree_play_of_parts (hc : c.Unbound) (hlisted : ∀ z ∈ zs, z.2.footprint?.isSome)
    (hind : c.Independent zs) (hparts : ∀ k, part k zs' = part k zs) :
    Agree (c.play o zs') (c.play o zs) := by
  induction zs generalizing c zs' with
  | nil =>
    rw [eq_nil_of_part hparts]
    exact ⟨rfl, fun _ => rfl⟩
  | cons z zs ih =>
    rcases z with ⟨k, i⟩
    rcases exists_append_of_part ((hparts k).trans (part_cons_self k i zs)) with
      ⟨pre, post, rfl, hpre⟩
    have hmem : ∀ z ∈ pre ++ (k, i) :: post, z ∈ (k, i) :: zs := by
      intro z hz
      rw [← mem_part (k := z.1), ← hparts]
      exact mem_part.2 hz
    have hi : i.footprint?.isSome := hlisted (k, i) List.mem_cons_self
    have hind' : c.Independent (pre ++ (k, i) :: post) := by
      intro l m hlm
      rw [hparts l, hparts m]
      exact hind l m hlm
    have hmove : Agree (c.play o (pre ++ (k, i) :: post)) (c.play o ((k, i) :: (pre ++ post))) :=
      agree_play_move hpre hc (fun z hz => hlisted z (hmem z hz)) hind'
    have hrest : Agree ((c.step o k i).2.play o (pre ++ post)) ((c.step o k i).2.play o zs) :=
      ih (hc.step hi k) (fun z hz => hlisted z (List.mem_cons_of_mem _ hz))
        (hind.step (fun z hz => List.mem_cons_of_mem _ hz) hc hi k)
        (part_append_of_cons hpre hparts)
    exact hmove.trans hrest.play_cons

/-- Independent instructions may be interleaved in any way. Two runs in which each member has the
same instructions in the same order leave the same world and the same members behind, and each
instruction succeeds in both or fails in both with the same fault. -/
theorem play_eq_of_parts (hc : c.Unbound)
    (hlisted : ∀ z ∈ zs, z.2.opcode.toNat ∈ Opcode.literalCodes) (hind : c.Independent zs)
    (hparts : ∀ k, part k zs' = part k zs) :
    (c.play o zs').2 = (c.play o zs).2 ∧
      ∀ k, part k (c.play o zs').1 = part k (c.play o zs).1 :=
  agree_play_of_parts hc (fun z hz => Opcode.isSome_footprint?_iff.2 (hlisted z hz)) hind hparts

/-- Two executors in namespace 0. The one stores a byte string and makes a copy of it; the other
deletes a cell that is not there and stores a byte string. -/
theorem play_eq_of_parts_pair :
    let c : Crew Bool := ⟨{}, fun _ => { program := default, active := 0 }⟩
    let store : Instruction := ⟨0, 2, [[7], Bytes.ofWord 1]⟩
    let copy : Instruction := ⟨0, 3, [Bytes.ofWord 1, Bytes.ofWord 2]⟩
    let delete : Instruction := ⟨0, 19, [Bytes.ofWord 3]⟩
    let store' : Instruction := ⟨0, 2, [[8], Bytes.ofWord 4]⟩
    let zs := [(false, store), (false, copy), (true, delete), (true, store')]
    let zs' := [(true, delete), (false, store), (true, store'), (false, copy)]
    (c.play {} zs').2 = (c.play {} zs).2 ∧
      ∀ k, part k (c.play {} zs').1 = part k (c.play {} zs).1 :=
  play_eq_of_parts (by unfold Unbound; decide) (by decide)
    (by unfold Independent; decide) (by decide)

end Crew

end CellMachine
