import CellMachine.Proofs.Machine.Splitting
import CellMachine.Proofs.Machine.Station
import Mathlib.Data.Multiset.OrderedMonoid
import Mathlib.Tactic.Abel

/-!
# Ledgers

This module proves that threads keep the instructions of a program together. A ledger says of every
executor that there has ever been which instructions it holds, and which executor it comes from that
was not spawned. A turn may move instructions from an executor to one that it spawns, and a call
brings in a program of its own. A spawn whose thread the host refuses loses what it has taken out,
which the ledger enters as well. Apart from programs that are loaded in place of others, nothing
else happens to instructions. So what comes from one executor is, together with what has been lost
on the way, what that has started with.
-/

namespace CellMachine

open Stateful

/-! ## Accounts -/

/-- The instructions that an executor holds. -/
def Executor.held (e : Executor) : List Instruction := e.program.instructions

/-- The instructions that the executors of each thread hold. -/
def Machine.stock (m : Machine) : List (List (List Instruction)) :=
  m.threads.map fun t => t.executors.map (·.held)

/-- The executors that have been started for the executor to wait for. -/
def Turn.started : Turn → List Executor
  | .joining _ child => [child]
  | .ready | .calling .. | .done => []

/-- What an executor holds, and the number of the root that it comes from. -/
structure Share where
  root : Nat
  held : List Instruction
  deriving DecidableEq

/-- The accounts of all the executors that there have been. The roots are what the executors have
started with that were not spawned. The shares of the others are listed by thread, in the order in
which they stand on it, apart from those of executors that are no more. What no executor holds any
longer is lost. -/
structure Ledger where
  roots : List (List Instruction)
  threads : List (List Share)
  past : List Share := []
  lost : List Share := []
  deriving DecidableEq

namespace Ledger

/-- The ledger of a machine that is about to run a program. -/
def start (is : List Instruction) : Ledger := { roots := [is], threads := [[⟨0, is⟩]] }

/-- What an executor no longer holds, and has given to none that it has spawned. -/
def missing (top : Share) (e : Executor) (spawned : List Executor) : List Share :=
  match top.held.diff (e.held ++ spawned.flatMap (·.held)) with
  | [] => []
  | is => [{ top with held := is }]

/-- Enter what the running executor of the thread `n` holds, and what the executors hold that it has
spawned. They come from where it comes from, and so does what is missing. -/
def keep (l : Ledger) (n : Nat) (e : Executor) (spawned : List Executor) : Ledger :=
  match l.threads[n]? with
  | some (top :: below) =>
    { l with threads := l.threads.set n ({ top with held := e.held } :: below) ++
               spawned.map fun c => [{ top with held := c.held }]
             lost := l.lost ++ missing top e spawned }
  | _ => l

/-- Enter an executor that has been called on the thread `n`. It is a root. -/
def call (l : Ledger) (n : Nat) (callee : Executor) : Ledger :=
  match l.threads[n]? with
  | some shares =>
    { l with roots := l.roots ++ [callee.held]
             threads := l.threads.set n (⟨l.roots.length, callee.held⟩ :: shares) }
  | none => l

/-- Leave the thread `n` with its last `k` executors. The others are no more. -/
def retire (l : Ledger) (n k : Nat) : Ledger :=
  match l.threads[n]? with
  | some shares =>
    { l with threads := l.threads.set n (shares.drop (shares.length - k))
             past := shares.take (shares.length - k) ++ l.past }
  | none => l

def enter (l : Ledger) (n : Nat) : EStateM.Result Panic Focus Turn → Ledger
  | .ok (.calling _ callee _) s => (l.keep n s.exec s.world.arrivals).call n callee
  | .ok turn s => l.keep n s.exec (s.world.arrivals ++ turn.started)
  | .error _ s => l.keep n s.exec s.world.arrivals

/-- Enter what the running executor of the thread `n`, if there is one, does in its turn. -/
def record (o : Options) (m : Machine) (n : Nat) (l : Ledger) : Ledger :=
  match m.threads[n]? with
  | some (.running e _) => l.enter n (Guarded.turn o ⟨m.world, e⟩)
  | _ => l

def after (o : Options) (m : Machine) (l : Ledger) : Event → Ledger
  | .turn n => (l.record o m n).retire n ((m.advance o n).stock[n]?.getD []).length
  | .stop | .host _ => l

def along (o : Options) (m : Machine) (l : Ledger) : List Event → Ledger
  | [] => l
  | ev :: es => along o (m.after o ev) (l.after o m ev) es

/-- The instructions that the executors of each thread hold. -/
def stock (l : Ledger) : List (List (List Instruction)) :=
  l.threads.map fun shares => shares.map (·.held)

def sharesOf (l : Ledger) (r : Nat) : List Share :=
  (l.threads.flatten ++ l.past ++ l.lost).filter (·.root = r)

/-- Whatever comes from a root is what the root has started with. -/
def Balanced (l : Ledger) : Prop :=
  ∀ r, ((l.sharesOf r).flatMap (·.held) : Multiset Instruction) = (l.roots[r]?.getD [] : List _)

end Ledger

/-! ## What a turn keeps together -/

variable {o : Options} {s t : Focus} {i : Instruction} {is : List Instruction}

/-- The instructions that an executor holds, and those of the executors that are to have threads. -/
def Focus.goods (s : Focus) : Multiset Instruction :=
  s.exec.held + s.world.arrivals.flatMap (·.held)

theorem passive_goods (o : Options) (J : Multiset Instruction → Prop) :
    Passive o fun s => J s.goods :=
  Passive.ofPlace o fun p _ arrivals =>
    J (p.instructions + arrivals.flatMap (·.held) : Multiset Instruction)

/-- The executors that an instruction has started for its own executor to wait for. -/
def Effect.started : Effect → List Executor
  | .join child => [child]
  | .flow _ | .call .. => []

/-- The next turn takes the instructions `is` out of the program for a thread that the host
refuses. -/
def Focus.Forfeits (o : Options) (s : Focus) (is : List Instruction) : Prop :=
  ∃ i t byLabel joined first past, s.Dispatches o i t ∧
    Opcode.ofCode? i.opcode = some (.spawn byLabel joined) ∧ t.Refuses i byLabel first past ∧
      is = (s.exec.held.take past).drop first

def Machine.Forfeits (o : Options) (m : Machine) (n : Nat) (is : List Instruction) : Prop :=
  ∃ e callers, m.threads[n]? = some (.running e callers) ∧ Focus.Forfeits o ⟨m.world, e⟩ is

/-- A spawn takes from one executor what it gives to the other. -/
theorem Focus.goods_parted (joined : Bool) {first past : Nat} (h : first ≤ past) :
    (s.parted joined first past).goods +
      (s.exec.parting joined first past).started.flatMap (·.held) = s.goods := by
  have hcut := s.exec.program.cut_instructions h
  change ((s.exec.without first past).held : Multiset Instruction) + (s.exec.part first past).held =
    s.exec.held at hcut
  unfold goods
  rw [← hcut]
  cases joined with
  | true =>
    change ((s.exec.without first past).held : Multiset Instruction) +
      s.world.arrivals.flatMap (·.held) + [s.exec.part first past].flatMap (·.held) = _
    rw [List.flatMap_singleton]
    abel
  | false =>
    change ((s.exec.without first past).held : Multiset Instruction) +
      (s.world.arrivals ++ [s.exec.part first past]).flatMap (·.held) +
        ([] : List Executor).flatMap (·.held) = _
    rw [List.flatMap_append, List.flatMap_singleton, ← Multiset.coe_add, List.flatMap_nil,
      Multiset.coe_nil]
    abel

/-- If nobody gets what is taken out, that is lost. -/
theorem Focus.goods_bereft {first past : Nat} (h : first ≤ past) :
    (s.bereft first past).goods + ((s.exec.held.take past).drop first : List _) = s.goods := by
  have hcut := s.exec.program.cut_instructions h
  change ((s.exec.without first past).held : Multiset Instruction) +
    ((s.exec.held.take past).drop first : List _) = s.exec.held at hcut
  change ((s.exec.without first past).held : Multiset Instruction) +
    s.world.arrivals.flatMap (·.held) + ((s.exec.held.take past).drop first : List _) = s.goods
  rw [add_right_comm, hcut]
  rfl

/-- The call in front of an instruction leaves everything where it is. -/
theorem Focus.Dispatches.goods (h : s.Dispatches o i t) :
    t.goods = s.goods ∧ t.exec.held = s.exec.held := by
  rcases h.stays with ⟨hprogram, -, harrivals⟩
  have hheld : t.exec.held = s.exec.held := congrArg Program.instructions hprogram
  exact ⟨by rw [Focus.goods, hheld, harrivals, Focus.goods], hheld⟩

theorem Executor.goods_afterFault (f : Fault) :
    Focus.goods { s with exec := s.exec.afterFault f } = s.goods := by
  unfold Focus.goods Executor.held
  rw [Executor.afterFault_program]

/-- An instruction that loads no program keeps its executor's instructions together, if it forfeits
none. -/
theorem Instruction.ensures_goods (h : s.Dispatches o i t) (hnone : ∀ is, ¬s.Forfeits o is)
    (hload : Opcode.ofCode? i.opcode ≠ some .loadProgram) :
    Ensures (fun u => u.goods = s.goods) t (i.run o) fun effect u =>
      u.goods + effect.started.flatMap (·.held) = s.goods := by
  rcases h.goods with ⟨hgoods, hheld⟩
  refine (passive_goods o (· = s.goods)).ensures_instruction hgoods i ?_ ?_ fun h => absurd h hload
  · intro effect u hu hplain
    have hstarted : effect.started = [] := by
      cases effect with
      | flow f => rfl
      | call callee r => rfl
      | join child => exact hplain.elim
    rw [hstarted]
    exact (add_zero _).trans hu
  · intro byLabel joined hcode
    refine Opcode.ensures_spawn hgoods ?_ ?_
    · intro first past hrefuses
      exact absurd ⟨i, t, byLabel, joined, first, past, h, hcode, hrefuses, rfl⟩ (hnone _)
    · intro first past hgrants
      exact (Focus.goods_parted joined hgrants.ordered).trans hgoods

/-- So does a turn, whatever becomes of its instruction. -/
theorem Guarded.ensures_goods (hnone : ∀ is, ¬s.Forfeits o is)
    (hload : ∀ i t, s.Dispatches o i t → Opcode.ofCode? i.opcode ≠ some .loadProgram) :
    Ensures (fun t => t.goods = s.goods) s (turn o) fun turn t =>
      t.goods + turn.started.flatMap (·.held) = s.goods := by
  -- Hooks and faults keep the program, so that the instruction alone decides.
  have hgoods := (passive_goods o (· = s.goods)).stable
  have hready (t : Focus) (ht : t.goods = s.goods) :
      t.goods + Turn.ready.started.flatMap (·.held) = s.goods := (add_zero _).trans ht
  refine ensures_turn hgoods (K := fun _ t => t.goods = s.goods) (fun _ => hgoods) ?_ ?_ ?_ ?_ ?_ ?_
  · intro _
    exact add_zero _
  · intro _
    exact ⟨rfl, rfl⟩
  · intro i t hdispatched ht
    refine (Instruction.ensures_goods hdispatched hnone (hload i t hdispatched)).imp ?_
    intro effect u hu
    cases effect with
    | flow f => exact (add_zero _).symm.trans hu
    | call callee r => exact hu
    | join child => exact hu
  · intro _ _ _ ht
    exact ht
  · intro f t ht
    refine hready _ ?_
    cases f <;> exact ht
  · intro f t ht
    exact hready _ ((Executor.goods_afterFault f).trans ht)

/-- What a turn forfeits is all that it loses. -/
theorem Guarded.ensures_goods_of_forfeits (h : s.Forfeits o is) :
    Ensures (fun t => t.goods + is = s.goods) s (turn o) fun turn t =>
      t.goods + is = s.goods ∧ turn.started = [] := by
  rcases h with ⟨i, t, byLabel, joined, first, past, hdispatched, hcode, hrefuses, rfl⟩
  rcases hdispatched.goods with ⟨hgoods, hheld⟩
  rcases Opcode.run_spawn_of_refuses o joined hrefuses with ⟨reason, hrun⟩
  -- The fault is handled in the state in which the part has been taken out.
  have hlost : (t.bereft first past).goods + ((s.exec.held.take past).drop first : List _) =
      s.goods := by
    rw [← hheld, Focus.goods_bereft hrefuses.ordered, hgoods]
  have hinstruction : Action.runInstruction o i s.counted =
      .error (.fault (.io (.noThread reason))) (t.bereft first past) := by
    refine (bind_of_ok (Focus.dispatches_iff.1 hdispatched).2 _).trans (bind_of_error ?_ _)
    rw [Instruction.run, hcode]
    exact hrun
  have hstable := (passive_goods o fun g =>
    g + ((s.exec.held.take past).drop first : List _) = s.goods).stable
  have hattempt := ensures_attempt hstable
    (Q := fun v u => u.goods + ((s.exec.held.take past).drop first : List _) = s.goods ∧
      (v.getD .ready).started = [])
    (ensures_of_error (P := fun _ _ => False) hinstruction hlost) (fun _ _ h => h.elim)
    fun f u hu => ⟨(Executor.goods_afterFault (s := u) f).symm ▸ hu, rfl⟩
  unfold Ensures
  rw [turn_of_takesUp hdispatched.takesUp]
  exact hattempt.bind fun _ _ hu => ensures_pure hu

/-! ## Balance -/

namespace Ledger

variable {l : Ledger} {m : Machine} {n k r : Nat}

def wealth (r : Nat) (shares : List Share) : Multiset Instruction :=
  ((shares.filter (·.root = r)).flatMap (·.held) : List Instruction)

@[simp] theorem wealth_nil (r : Nat) : wealth r [] = 0 := rfl

@[simp] theorem wealth_append (r : Nat) (shares shares' : List Share) :
    wealth r (shares ++ shares') = wealth r shares + wealth r shares' := by
  unfold wealth
  rw [List.filter_append, List.flatMap_append, Multiset.coe_add]

theorem wealth_cons (r : Nat) (share : Share) (shares : List Share) :
    wealth r (share :: shares) =
      (if share.root = r then (share.held : Multiset Instruction) else 0) + wealth r shares := by
  unfold wealth
  by_cases hroot : share.root = r
  · simp [hroot]
  · simp [hroot]

/-- Shares of one thread are replaced. -/
theorem wealth_set {threads : List (List Share)} {shares : List Share}
    (h : threads[n]? = some shares) (shares' : List Share) (r : Nat) :
    wealth r (threads.set n shares').flatten + wealth r shares =
      wealth r threads.flatten + wealth r shares' := by
  rcases List.getElem?_eq_some_iff.1 h with ⟨hn, hshares⟩
  have hsplit : ∃ front back, threads = front ++ threads[n] :: back ∧ front.length = n ∧
      threads.set n shares' = front ++ shares' :: back := List.exists_of_set hn
  rcases hsplit with ⟨front, back, hthreads, -, hset⟩
  -- All shares are those in front of the thread, its own, and those behind.
  have hflatten : threads.flatten = front.flatten ++ (shares ++ back.flatten) := by
    rw [← List.flatten_cons, ← List.flatten_append, ← hshares, ← hthreads]
  rw [hset, hflatten, List.flatten_append, List.flatten_cons]
  simp only [wealth_append]
  abel

/-- What the shares of a thread lose is lost by all shares together. -/
theorem wealth_set_add {threads : List (List Share)} {shares shares' : List Share}
    {lost : Multiset Instruction} (h : threads[n]? = some shares)
    (hlost : wealth r shares' + lost = wealth r shares) :
    wealth r (threads.set n shares').flatten + lost = wealth r threads.flatten := by
  have hset := wealth_set h shares' r
  refine add_right_cancel (b := wealth r shares') ?_
  calc wealth r (threads.set n shares').flatten + lost + wealth r shares'
      = wealth r (threads.set n shares').flatten + (wealth r shares' + lost) := by abel
    _ = wealth r threads.flatten + wealth r shares' := by rw [hlost, hset]

/-- Executors that have been spawned come from where the spawning one comes from. -/
theorem wealth_spawned (r root : Nat) (spawned : List Executor) :
    wealth r (spawned.map fun c => [{ root, held := c.held : Share }]).flatten =
      if root = r then (spawned.flatMap (·.held) : Multiset Instruction) else 0 := by
  induction spawned with
  | nil => simp
  | cons c spawned ih =>
    rw [List.map_cons, List.flatten_cons, wealth_append, ih, wealth_cons]
    by_cases hroot : root = r
    · simp [hroot]
    · simp [hroot]

/-- What is missing is what the executor has held more than it holds and has given away. -/
theorem flatMap_missing (top : Share) (e : Executor) (spawned : List Executor) :
    ((missing top e spawned).flatMap (·.held) : Multiset Instruction) =
      top.held - (e.held + spawned.flatMap (·.held)) := by
  rw [Multiset.coe_add, Multiset.coe_sub]
  unfold missing
  split
  · rename_i hdiff
    rw [hdiff]
    rfl
  · rw [List.flatMap_singleton]

theorem missing_eq_nil_iff {top : Share} {e : Executor} {spawned : List Executor} :
    missing top e spawned = [] ↔ (missing top e spawned).flatMap (·.held) = [] := by
  unfold missing
  split <;> simp_all

theorem missing_eq_of_mem {share top : Share} {e : Executor} {spawned : List Executor}
    (h : share ∈ missing top e spawned) : missing top e spawned = [share] := by
  unfold missing at h ⊢
  split at h
  · cases h
  · rw [List.mem_singleton.1 h]

theorem wealth_missing (r : Nat) (top : Share) (e : Executor) (spawned : List Executor) :
    wealth r (missing top e spawned) =
      if top.root = r then top.held - (e.held + spawned.flatMap (·.held) : Multiset Instruction)
      else 0 := by
  have hroots : ∀ share ∈ missing top e spawned, share.root = top.root := by
    unfold missing
    split <;> simp
  unfold wealth
  split
  · rename_i hroot
    rw [List.filter_eq_self.2 (by simpa [hroot] using hroots), flatMap_missing]
  · rename_i hroot
    rw [List.filter_eq_nil_iff.2 fun share hshare => by simpa [hroots share hshare] using hroot]
    rfl

theorem keep_eq {top : Share} {below : List Share} (hn : l.threads[n]? = some (top :: below))
    (e : Executor) (spawned : List Executor) : l.keep n e spawned =
      { l with threads := l.threads.set n ({ top with held := e.held } :: below) ++
                 spawned.map fun c => [{ top with held := c.held }]
               lost := l.lost ++ missing top e spawned } := by
  unfold keep
  rw [hn]

theorem keep_threads_self {top : Share} {below : List Share}
    (hn : l.threads[n]? = some (top :: below)) (e : Executor) (spawned : List Executor) :
    (l.keep n e spawned).threads[n]? = some ({ top with held := e.held } :: below) := by
  have hlt : n < l.threads.length := (List.getElem?_eq_some_iff.1 hn).1
  rw [keep_eq hn]
  change (_ ++ _ : List (List Share))[n]? = _
  rw [List.getElem?_append_left (by simpa using hlt), List.getElem?_set_self hlt]

theorem call_eq {shares : List Share} (hn : l.threads[n]? = some shares) (callee : Executor) :
    l.call n callee =
      { l with roots := l.roots ++ [callee.held]
               threads := l.threads.set n (⟨l.roots.length, callee.held⟩ :: shares) } := by
  unfold call
  rw [hn]

theorem balanced_iff : l.Balanced ↔ ∀ r, wealth r l.threads.flatten + wealth r l.past +
    wealth r l.lost = (l.roots[r]?.getD [] : List _) := by
  simp only [← wealth_append]
  rfl

theorem Balanced.keep (h : l.Balanced) {top : Share} {below : List Share} {e : Executor}
    {spawned : List Executor} (hn : l.threads[n]? = some (top :: below))
    (hheld : (e.held + spawned.flatMap (·.held) : Multiset Instruction) ≤ top.held) :
    (l.keep n e spawned).Balanced := by
  rw [balanced_iff] at h ⊢
  intro r
  rw [keep_eq hn]
  -- Of the root that the executor comes from, the spawned ones get what it loses, and the rest is
  -- missing; of the others nothing moves.
  have hmoved : wealth r ({ top with held := e.held } :: below) +
      ((if top.root = r then (spawned.flatMap (·.held) : Multiset Instruction) else 0) +
        wealth r (missing top e spawned)) = wealth r (top :: below) := by
    rcases Multiset.le_iff_exists_add.1 hheld with ⟨rest, hrest⟩
    rw [wealth_cons, wealth_cons, wealth_missing, hrest, add_tsub_cancel_left]
    by_cases hroot : top.root = r
    · simp only [hroot, if_true]
      abel
    · simp only [hroot, if_false, add_zero]
  refine Eq.trans ?_ (h r)
  change wealth r (_ ++ _ : List (List Share)).flatten + wealth r l.past +
    wealth r (l.lost ++ missing top e spawned) = _
  rw [List.flatten_append, wealth_append, wealth_append, wealth_spawned,
    ← wealth_set_add hn hmoved]
  abel

/-- A root that has been called has nothing to do with what there has been. -/
theorem Balanced.call (h : l.Balanced) {shares : List Share} (hn : l.threads[n]? = some shares)
    (callee : Executor) : (l.call n callee).Balanced := by
  rw [balanced_iff] at h ⊢
  intro r
  have hold := h r
  have hset := wealth_set hn (⟨l.roots.length, callee.held⟩ :: shares) r
  rw [wealth_cons, ← add_assoc] at hset
  have hnew := add_right_cancel hset
  rw [call_eq hn]
  change wealth r (l.threads.set n (⟨l.roots.length, callee.held⟩ :: shares)).flatten +
    wealth r l.past + wealth r l.lost = ((l.roots ++ [callee.held])[r]?.getD [] : List _)
  rw [hnew, add_right_comm _ _ (wealth r l.past), add_right_comm _ _ (wealth r l.lost), hold]
  -- So far no share has held anything from a root with the number of the new one.
  rcases Nat.lt_trichotomy r l.roots.length with hr | rfl | hr
  · simp [List.getElem?_append_left hr, Nat.ne_of_gt hr]
  · simp
  · have hlast : (l.roots ++ [callee.held]).length ≤ r := by simpa using Nat.succ_le_of_lt hr
    rw [List.getElem?_eq_none_iff.2 (Nat.le_of_lt hr), List.getElem?_eq_none_iff.2 hlast,
      if_neg (Nat.ne_of_lt hr)]
    simp

/-- Executors that are no more leave behind what they have held. -/
theorem Balanced.retire (h : l.Balanced) (n k : Nat) : (l.retire n k).Balanced := by
  unfold Ledger.retire
  cases hn : l.threads[n]? with
  | none => exact h
  | some shares =>
    rw [balanced_iff] at h ⊢
    intro r
    have hsplit : wealth r (shares.drop (shares.length - k)) +
        wealth r (shares.take (shares.length - k)) = wealth r shares := by
      rw [add_comm, ← wealth_append, List.take_append_drop]
    refine Eq.trans ?_ (h r)
    change wealth r (l.threads.set n (shares.drop (shares.length - k))).flatten +
      wealth r (shares.take (shares.length - k) ++ l.past) + wealth r l.lost = _
    rw [wealth_append, ← add_assoc, wealth_set_add hn hsplit]

/-! ## Agreement -/

/-- If a ledger agrees with a machine, it has the shares of every thread. -/
theorem stock_getElem? {thread : Thread} (hstock : l.stock = m.stock)
    (hthread : m.threads[n]? = some thread) :
    l.stock[n]? = some (thread.executors.map (·.held)) := by
  rw [hstock, Machine.stock, List.getElem?_map, hthread]
  rfl

theorem exists_top {e : Executor} {callers : List Suspended} (hstock : l.stock = m.stock)
    (hthread : m.threads[n]? = some (.running e callers)) :
    ∃ top below, l.threads[n]? = some (top :: below) ∧ top.held = e.held ∧
      below.map (·.held) = callers.map (·.exec.held) := by
  have hn := stock_getElem? hstock hthread
  rw [stock, List.getElem?_map, Option.map_eq_some_iff] at hn
  rcases hn with ⟨shares, hn, hshares⟩
  cases shares with
  | nil => cases hshares
  | cons top below =>
    rw [Thread.executors, List.map_cons, List.map_cons, List.map_map] at hshares
    rcases List.cons.inj hshares with ⟨htop, hbelow⟩
    exact ⟨top, below, hn, htop, hbelow⟩

theorem record_of_running {e : Executor} {callers : List Suspended}
    {result : EStateM.Result Panic Focus Turn} (hthread : m.threads[n]? = some (.running e callers))
    (hturn : Guarded.turn o ⟨m.world, e⟩ = result) : l.record o m n = l.enter n result := by
  unfold record
  rw [hthread, ← hturn]

theorem record_of_not_running
    (h : ∀ (e : Executor) (callers : List Suspended), m.threads[n]? ≠ some (.running e callers)) :
    l.record o m n = l := by
  unfold record
  cases hthread : m.threads[n]? with
  | none => rfl
  | some thread =>
    cases thread with
    | running e callers => exact absurd hthread (h e callers)
    | waiting e i child callers => rfl
    | ended result clock => rfl

/-- What a turn keeps is entered for its executor and those that it has spawned. After that a root
may be called. -/
theorem exists_keep {J : Multiset Instruction → Prop} {e : Executor} {callers : List Suspended}
    (hthread : m.threads[n]? = some (.running e callers))
    (hJ : Ensures (fun t => J t.goods) ⟨m.world, e⟩ (Guarded.turn o) fun turn t =>
      J (t.goods + turn.started.flatMap (·.held))) :
    ∃ e' spawned, J (e'.held + spawned.flatMap (·.held) : Multiset Instruction) ∧
      (l.record o m n = l.keep n e' spawned ∨
        ∃ callee, l.record o m n = (l.keep n e' spawned).call n callee) := by
  rw [record_of_running hthread rfl]
  cases hturn : Guarded.turn o ⟨m.world, e⟩ with
  | error p s => exact ⟨s.exec, s.world.arrivals, hJ.of_error hturn, .inl rfl⟩
  | ok turn s =>
    have hs := hJ.of_ok hturn
    unfold Focus.goods at hs
    rw [add_assoc, Multiset.coe_add, ← List.flatMap_append] at hs
    cases turn with
    | ready => exact ⟨s.exec, _, hs, .inl rfl⟩
    | joining i child => exact ⟨s.exec, _, hs, .inl rfl⟩
    | done => exact ⟨s.exec, _, hs, .inl rfl⟩
    | calling i callee r =>
      rw [show Turn.started (.calling i callee r) = [] from rfl, List.append_nil] at hs
      exact ⟨s.exec, _, hs, .inr ⟨callee, rfl⟩⟩

/-- No spawned executor is left over from an earlier turn. -/
theorem goods_eq_held (harrivals : m.world.arrivals = []) (e : Executor) :
    (⟨m.world, e⟩ : Focus).goods = e.held := by
  unfold Focus.goods
  rw [harrivals]
  exact add_zero _

/-- A turn in which no program is loaded keeps the balance. -/
theorem Balanced.record (h : l.Balanced) (hstock : l.stock = m.stock)
    (harrivals : m.world.arrivals = [])
    (hload : ∀ i t, m.Dispatches o n i t → Opcode.ofCode? i.opcode ≠ some .loadProgram) :
    (l.record o m n).Balanced := by
  by_cases hrunning : ∃ e callers, m.threads[n]? = some (.running e callers)
  · rcases hrunning with ⟨e, callers, hthread⟩
    rcases exists_top hstock hthread with ⟨top, below, hn, htop, -⟩
    have hstart : (⟨m.world, e⟩ : Focus).goods = top.held := htop ▸ goods_eq_held harrivals e
    -- What a turn forfeits makes what there is less, and nothing makes it more.
    have hle : Ensures (fun t => t.goods ≤ (top.held : Multiset _)) ⟨m.world, e⟩
        (Guarded.turn o) fun turn t =>
          t.goods + turn.started.flatMap (·.held) ≤ top.held := by
      rw [← hstart]
      by_cases hforfeits : ∃ is, Focus.Forfeits o ⟨m.world, e⟩ is
      · rcases hforfeits with ⟨is, his⟩
        refine (Guarded.ensures_goods_of_forfeits his).mono ?_ ?_
        · intro t ht
          exact ht ▸ le_self_add
        · rintro turn t ⟨ht, hstarted⟩
          rw [hstarted, ← ht]
          exact le_of_eq_of_le (add_zero _) (le_self_add)
      · have hgoods := Guarded.ensures_goods (not_exists.1 hforfeits) fun i t hi =>
          hload i t ⟨e, callers, hthread, hi⟩
        exact hgoods.mono (fun _ ht => ht.le) fun _ _ ht => ht.le
    rcases exists_keep (l := l) (J := (· ≤ (top.held : Multiset _))) hthread hle
      with ⟨e', spawned, hheld, hkeep | ⟨callee, hcall⟩⟩
    · rw [hkeep]
      exact h.keep hn hheld
    · rw [hcall]
      exact (h.keep hn hheld).call (keep_threads_self hn e' spawned) callee
  · rw [record_of_not_running fun e callers hthread => hrunning ⟨e, callers, hthread⟩]
    exact h

theorem lost_keep {top : Share} {below : List Share} (hn : l.threads[n]? = some (top :: below))
    {e : Executor} {spawned : List Executor} (h : l.record o m n = l.keep n e spawned ∨
      ∃ callee, l.record o m n = (l.keep n e spawned).call n callee) :
    (l.record o m n).lost = l.lost ++ missing top e spawned := by
  have hkeep : (l.keep n e spawned).lost = l.lost ++ missing top e spawned := by
    rw [keep_eq hn]
  rcases h with h | ⟨callee, h⟩
  · rw [h, hkeep]
  · rw [h, call_eq (keep_threads_self hn e spawned)]
    exact hkeep

/-- A turn that forfeits nothing loses nothing. -/
theorem lost_record_of_not_forfeits (hstock : l.stock = m.stock) (harrivals : m.world.arrivals = [])
    (hload : ∀ i t, m.Dispatches o n i t → Opcode.ofCode? i.opcode ≠ some .loadProgram)
    (hnone : ∀ is, ¬m.Forfeits o n is) : (l.record o m n).lost = l.lost := by
  by_cases hrunning : ∃ e callers, m.threads[n]? = some (.running e callers)
  · rcases hrunning with ⟨e, callers, hthread⟩
    rcases exists_top hstock hthread with ⟨top, below, hn, htop, -⟩
    have hgoods := Guarded.ensures_goods (fun is his => hnone is ⟨e, callers, hthread, his⟩)
      fun i t hi => hload i t ⟨e, callers, hthread, hi⟩
    rw [goods_eq_held harrivals, ← htop] at hgoods
    rcases exists_keep (l := l) (J := (· = (top.held : Multiset _))) hthread hgoods
      with ⟨e', spawned, hheld, hrecord⟩
    have hmissing := flatMap_missing top e' spawned
    rw [hheld, tsub_self, Multiset.coe_eq_zero] at hmissing
    rw [lost_keep hn hrecord, missing_eq_nil_iff.2 hmissing, List.append_nil]
  · rw [record_of_not_running fun e callers hthread => hrunning ⟨e, callers, hthread⟩]

/-- A turn loses what it forfeits. -/
theorem lost_record_of_forfeits (hstock : l.stock = m.stock) (harrivals : m.world.arrivals = [])
    (hforfeits : m.Forfeits o n is) : ∃ new, (l.record o m n).lost = l.lost ++ new ∧
      (new.flatMap (·.held)).Perm is ∧ ∀ share ∈ new, share.held.Perm is := by
  rcases hforfeits with ⟨e, callers, hthread, his⟩
  rcases exists_top hstock hthread with ⟨top, below, hn, htop, -⟩
  have hgoods : Ensures (fun t => t.goods + is = (⟨m.world, e⟩ : Focus).goods) ⟨m.world, e⟩
      (Guarded.turn o) fun turn t =>
        t.goods + turn.started.flatMap (·.held) + is = (⟨m.world, e⟩ : Focus).goods := by
    refine (Guarded.ensures_goods_of_forfeits his).imp ?_
    rintro turn t ⟨ht, hstarted⟩
    rw [hstarted]
    exact (congrArg (· + (is : Multiset Instruction)) (add_zero t.goods)).trans ht
  rw [goods_eq_held harrivals, ← htop] at hgoods
  rcases exists_keep (l := l) (J := fun g => g + is = top.held) hthread hgoods
    with ⟨e', spawned, hheld, hrecord⟩
  have hperm : ((missing top e' spawned).flatMap (·.held)).Perm is := by
    rw [← Multiset.coe_eq_coe, flatMap_missing, ← hheld, add_tsub_cancel_left]
  refine ⟨_, lost_keep hn hrecord, hperm, fun share hshare => ?_⟩
  rwa [missing_eq_of_mem hshare, List.flatMap_singleton] at hperm

theorem stock_keep {top : Share} {below : List Share} (hn : l.threads[n]? = some (top :: below))
    (e : Executor) (spawned : List Executor) : (l.keep n e spawned).stock =
      l.stock.set n (e.held :: below.map (·.held)) ++ spawned.map fun c => [c.held] := by
  rw [keep_eq hn]
  unfold stock
  rw [List.map_append, List.map_set, List.map_map]
  rfl

theorem stock_call_keep {top : Share} {below : List Share}
    (hn : l.threads[n]? = some (top :: below)) (e callee : Executor) (spawned : List Executor) :
    ((l.keep n e spawned).call n callee).stock =
      l.stock.set n (callee.held :: e.held :: below.map (·.held)) ++
        spawned.map fun c => [c.held] := by
  have hlt : n < l.stock.length := by
    rw [stock, List.length_map]
    exact (List.getElem?_eq_some_iff.1 hn).1
  have hcall : ((l.keep n e spawned).call n callee).stock =
      (l.keep n e spawned).stock.set n (callee.held :: e.held :: below.map (·.held)) := by
    rw [call_eq (keep_threads_self hn e spawned)]
    unfold stock
    rw [List.map_set]
    rfl
  rw [hcall, stock_keep hn, List.set_append_left n _ (by simpa using hlt), List.set_set]

/-- Who is still there is at the end of the thread. -/
theorem stock_retire {stack left : List (List Instruction)} (hn : l.stock[n]? = some stack)
    (hleft : left <:+ stack) : (l.retire n left.length).stock = l.stock.set n left := by
  rw [stock, List.getElem?_map, Option.map_eq_some_iff] at hn
  rcases hn with ⟨shares, hn, rfl⟩
  unfold retire
  rw [hn]
  unfold stock
  rw [List.map_set, List.map_drop, ← List.length_map (f := fun share : Share => share.held),
    ← List.suffix_iff_eq_drop.1 hleft]

/-- On the thread `n` the ledger has entered the executors of a stack of which the machine has kept
the last ones, and both have the same new threads. -/
def Enters (l l' : Ledger) (n : Nat) (m' : Machine) : Prop :=
  ∃ stack left new, l'.stock = l.stock.set n stack ++ new ∧
    m'.stock = l.stock.set n left ++ new ∧ left <:+ stack

/-- With those retired that are no more, the ledger agrees. -/
theorem Enters.stock_retire {l' : Ledger} {m' : Machine} (h : l.Enters l' n m')
    (hn : n < l.stock.length) : (l'.retire n (m'.stock[n]?.getD []).length).stock = m'.stock := by
  rcases h with ⟨stack, left, new, hl', hm', hleft⟩
  have hstack : l'.stock[n]? = some stack := by
    rw [hl', List.getElem?_append_left (by simpa using hn), List.getElem?_set_self hn]
  have hkept : m'.stock[n]? = some left := by
    rw [hm', List.getElem?_append_left (by simpa using hn), List.getElem?_set_self hn]
  rw [hkept, Option.getD_some, Ledger.stock_retire hstack hleft, hl', hm',
    List.set_append_left n _ (by simpa using hn), List.set_set]

end Ledger

namespace Machine

variable {m : Machine} {n : Nat}

theorem stock_put (n : Nat) (t : Thread) (w : World) : (m.put n t w).stock =
    m.stock.set n (t.executors.map (·.held)) ++ w.arrivals.map fun c => [c.held] := by
  unfold stock
  rw [put_threads, List.map_append, List.map_set, List.map_map]
  rfl

theorem stock_put_running (n : Nat) (e : Executor) (callers : List Suspended) (w : World) :
    (m.put n (.running e callers) w).stock =
      m.stock.set n (e.held :: callers.map (·.exec.held)) ++ w.arrivals.map fun c => [c.held] := by
  rw [stock_put, Thread.executors, List.map_cons, List.map_map]
  rfl

theorem stock_fork (hn : n < m.threads.length) (e child : Executor) (i : Instruction)
    (callers : List Suspended) (w : World) : (m.fork n e i child callers w).stock =
      m.stock.set n (e.held :: callers.map (·.exec.held)) ++
        (w.arrivals ++ [child]).map fun c => [c.held] := by
  rcases fork_threads hn e child i callers w with ⟨k, hthreads⟩
  unfold stock
  rw [hthreads, List.map_append, List.map_set, List.map_map]
  simp only [Thread.executors, List.map_cons, List.map_map]
  rfl

/-- An executor that takes up an instruction again keeps its instructions, and starts nothing. -/
theorem exists_stock_resumed (m : Machine) (n : Nat) (callers : List Suspended) {a : Action Unit}
    {new : List Executor} (ha : Ensures (fun t => t.world.arrivals = new) s (Guarded.attempt a)
      fun _ t => t.exec.held = s.exec.held ∧ t.world.arrivals = new) :
    ∃ left, (m.resumed n callers a s).stock = m.stock.set n left ++ new.map (fun c => [c.held]) ∧
      left <:+ s.exec.held :: callers.map (·.exec.held) := by
  rcases resumed_cases n callers a s with ⟨v, t, ht, hput⟩ | ⟨p, t, ht, hput⟩
  · obtain ⟨hheld, hnew⟩ := ha.of_ok ht
    refine ⟨_, ?_, List.suffix_rfl⟩
    rw [hput, stock_put_running, hnew, hheld]
  · refine ⟨[], ?_, List.nil_suffix⟩
    rw [hput, stock_put, ha.of_error ht]
    rfl

end Machine

theorem passive_held (o : Options) (is : List Instruction) (new : List Executor) :
    Passive o fun s => s.exec.held = is ∧ s.world.arrivals = new :=
  Passive.ofPlace o fun p _ arrivals => p.instructions = is ∧ arrivals = new

theorem Executor.held_afterFault (e : Executor) (f : Fault) : (e.afterFault f).held = e.held :=
  congrArg Program.instructions (e.afterFault_program f)

theorem Guarded.ensures_receive_held (o : Options) (i : Instruction) (r : Reception)
    (outcome : Outcome) (s : Focus) :
    Ensures (fun t => t.world.arrivals = s.world.arrivals) s
      (attempt (Action.receive i r outcome)) fun _ t =>
        t.exec.held = s.exec.held ∧ t.world.arrivals = s.world.arrivals := by
  have hreceive := ensures_receive (passive_held o s.exec.held s.world.arrivals).stable ⟨rfl, rfl⟩
    i r outcome (Q := fun t => t.exec.held = s.exec.held ∧ t.world.arrivals = s.world.arrivals)
    (fun _ ht => ht) fun f t ht => ⟨(t.exec.held_afterFault f).trans ht.1, ht.2⟩
  exact hreceive.mono (fun _ ht => ht.2) fun _ _ ht => ht

theorem Guarded.ensures_receiveJoined_held (o : Options) (i : Instruction)
    (result : Except Panic Outcome) (s : Focus) :
    Ensures (fun t => t.world.arrivals = s.world.arrivals) s
      (attempt (Action.receiveJoined i result)) fun _ t =>
        t.exec.held = s.exec.held ∧ t.world.arrivals = s.world.arrivals := by
  have hreceive := ensures_receiveJoined (passive_held o s.exec.held s.world.arrivals).stable
    ⟨rfl, rfl⟩ i result
    (Q := fun t => t.exec.held = s.exec.held ∧ t.world.arrivals = s.world.arrivals)
    (fun _ ht => ht) fun f t ht => ⟨(t.exec.held_afterFault f).trans ht.1, ht.2⟩
  exact hreceive.mono (fun _ ht => ht.2) fun _ _ ht => ht

namespace Ledger

variable {l : Ledger} {m : Machine} {n : Nat}

/-- A ledger that has entered nothing has entered a thread of which the last executors are kept. -/
theorem enters_self {thread : Thread} {m' : Machine} {left : List (List Instruction)}
    (hstock : l.stock = m.stock) (hthread : m.threads[n]? = some thread)
    (hm' : m'.stock = m.stock.set n left) (hleft : left <:+ thread.executors.map (·.held)) :
    l.Enters l n m' := by
  rcases List.getElem?_eq_some_iff.1 (stock_getElem? hstock hthread) with ⟨hlt, hget⟩
  refine ⟨l.stock[n], left, [], ?_, ?_, hget ▸ hleft⟩
  · rw [List.set_getElem_self, List.append_nil]
  · rw [hm', hstock, List.append_nil]

/-- A ledger enters an executor and those that it has spawned, with the callers that it knows. -/
theorem enters_keep {e e' : Executor} {callers : List Suspended} {spawned : List Executor}
    {m' : Machine} {left : List (List Instruction)} (hstock : l.stock = m.stock)
    (hthread : m.threads[n]? = some (.running e callers))
    (hm' : m'.stock = m.stock.set n left ++ spawned.map fun c => [c.held])
    (hleft : left <:+ e'.held :: callers.map (·.exec.held)) :
    l.Enters (l.keep n e' spawned) n m' := by
  rcases exists_top hstock hthread with ⟨top, below, hn, -, hbelow⟩
  exact ⟨_, left, _, stock_keep hn _ _, hstock ▸ hm', hbelow ▸ hleft⟩

/-- A turn enters in the ledger the executors that it leaves on the threads. -/
theorem enters_record (hstock : l.stock = m.stock) (harrivals : m.world.arrivals = [])
    (hlt : n < m.threads.length) : l.Enters (l.record o m n) n (m.advance o n) := by
  have hstep := Machine.step_advance o m n
  generalize m.advance o n = m' at hstep
  cases hstep with
  | idle hidle =>
    rw [record_of_not_running hidle]
    refine enters_self hstock (List.getElem?_eq_getElem hlt) ?_ List.suffix_rfl
    exact (congrArg _ (List.set_getElem_self hlt)).symm.trans List.map_set
  | ready hthread hturn =>
    rw [record_of_running hthread hturn]
    refine enters_keep hstock hthread ?_ List.suffix_rfl
    rw [Machine.stock_put_running, Turn.started, List.append_nil]
  | calling hthread hturn =>
    rw [record_of_running hthread hturn]
    -- Two executors are entered, and both stay on the thread.
    rcases exists_top hstock hthread with ⟨top, below, hn, -, hbelow⟩
    refine ⟨_, _, _, stock_call_keep hn _ _ _, ?_, List.suffix_rfl⟩
    rw [Machine.stock_put_running, hstock, List.map_cons, hbelow]
  | joining hthread hturn =>
    rw [record_of_running hthread hturn]
    refine enters_keep hstock hthread ?_ List.suffix_rfl
    rw [Machine.stock_fork hlt, Turn.started]
  | finished hthread hturn =>
    rw [record_of_running hthread hturn]
    refine enters_keep hstock hthread ?_ List.nil_suffix
    rw [Machine.stock_put, Turn.started, List.append_nil]
    rfl
  | panicked hthread hturn =>
    rw [record_of_running hthread hturn]
    exact enters_keep hstock hthread (Machine.stock_put _ _ _) List.nil_suffix
  | @returned e c callers s hthread hturn =>
    rw [record_of_running hthread hturn]
    rcases m.exists_stock_resumed n callers (Guarded.ensures_receive_held o c.instruction
      c.reception s.exec.outcome ⟨s.world, { c.exec with clock := s.exec.clock }⟩)
      with ⟨left, hresumed, hleft⟩
    refine enters_keep hstock hthread ?_ (hleft.trans (List.suffix_cons _ _))
    rw [hresumed, Turn.started, List.append_nil]
  | @joined e i child clock callers result hthread hending =>
    rw [record_of_not_running (by simp [hthread])]
    rcases m.exists_stock_resumed n callers (Guarded.ensures_receiveJoined_held o i result
      ⟨m.world, { e with clock := max e.clock clock }⟩) with ⟨left, hresumed, hleft⟩
    -- Nothing is waiting for a thread when the executor goes on.
    simp only [harrivals, List.map_nil, List.append_nil] at hresumed
    refine enters_self hstock hthread hresumed ?_
    rw [Thread.executors, List.map_cons, List.map_map]
    exact hleft

/-! ## Schedules -/

theorem stock_after (hstock : l.stock = m.stock) (harrivals : m.world.arrivals = []) (ev : Event) :
    (l.after o m ev).stock = (m.after o ev).stock := by
  cases ev with
  | stop | host refusal => exact hstock
  | turn n =>
    by_cases hlt : n < m.threads.length
    · refine (enters_record hstock harrivals hlt).stock_retire ?_
      rw [hstock, Machine.stock, List.length_map]
      exact hlt
    · -- There is no such thread, neither in the machine nor in the ledger.
      have hthread : m.threads[n]? = none := List.getElem?_eq_none_iff.2 (Nat.le_of_not_lt hlt)
      have hshares : l.threads[n]? = none := by
        have hlength := congrArg List.length hstock
        rw [stock, Machine.stock, List.length_map, List.length_map] at hlength
        rw [List.getElem?_eq_none_iff, hlength]
        exact Nat.le_of_not_lt hlt
      change ((l.record o m n).retire n _).stock = (m.advance o n).stock
      rw [record_of_not_running (by simp [hthread])]
      unfold retire Machine.advance
      rw [hthread, hshares]
      exact hstock

theorem Balanced.after (h : l.Balanced) (hstock : l.stock = m.stock)
    (harrivals : m.world.arrivals = []) {ev : Event}
    (hload : ∀ n, ev = .turn n → ∀ i t, m.Dispatches o n i t →
      Opcode.ofCode? i.opcode ≠ some .loadProgram) : (l.after o m ev).Balanced := by
  cases ev with
  | stop | host refusal => exact h
  | turn n => exact (h.record hstock harrivals (hload n rfl)).retire n _

/-- The ledger agrees with the machine after every schedule. -/
theorem stock_along (hstock : l.stock = m.stock) (harrivals : m.world.arrivals = [])
    (es : List Event) :
    (l.along o m es).stock = (m.play o es).stock ∧ (m.play o es).world.arrivals = [] := by
  induction es generalizing l m with
  | nil => exact ⟨hstock, harrivals⟩
  | cons ev es ih =>
    exact ih (stock_after hstock harrivals ev) (Machine.after_arrivals harrivals ev)

/-- The ledger is balanced after every schedule in which no program is loaded. -/
theorem Balanced.along (h : l.Balanced) {es : List Event} (hstock : l.stock = m.stock)
    (harrivals : m.world.arrivals = [])
    (hload : ∀ x ∈ m.history o es, ∀ n, x.2 = .turn n → ∀ i t, x.1.Dispatches o n i t →
      Opcode.ofCode? i.opcode ≠ some .loadProgram) : (l.along o m es).Balanced := by
  induction es generalizing l m with
  | nil => exact h
  | cons ev es ih =>
    rcases List.forall_mem_cons.1 hload with ⟨hfirst, hrest⟩
    exact ih (h.after hstock harrivals hfirst) (stock_after hstock harrivals ev)
      (Machine.after_arrivals harrivals ev) hrest

/-! ## Roots -/

theorem roots_keep (n : Nat) (e : Executor) (spawned : List Executor) :
    (l.keep n e spawned).roots = l.roots := by
  unfold keep
  split <;> rfl

theorem roots_retire (n k : Nat) : (l.retire n k).roots = l.roots := by
  unfold retire
  split <;> rfl

theorem roots_call (n : Nat) (callee : Executor) : l.roots <+: (l.call n callee).roots := by
  unfold call
  split
  · exact List.prefix_append _ _
  · exact List.prefix_rfl

/-- No root is forgotten. -/
theorem roots_after (o : Options) (m : Machine) (l : Ledger) (ev : Event) :
    l.roots <+: (l.after o m ev).roots := by
  cases ev with
  | stop | host refusal => exact List.prefix_rfl
  | turn n =>
    change l.roots <+: ((l.record o m n).retire n _).roots
    rw [roots_retire]
    unfold record enter
    split
    · split
      · rw [← roots_keep (l := l)]
        exact roots_call _ _
      · exact (roots_keep (l := l) _ _ _).symm ▸ List.prefix_rfl
      · exact (roots_keep (l := l) _ _ _).symm ▸ List.prefix_rfl
    · exact List.prefix_rfl

theorem roots_along (o : Options) (m : Machine) (l : Ledger) (es : List Event) :
    l.roots <+: (l.along o m es).roots := by
  induction es generalizing m l with
  | nil => exact List.prefix_rfl
  | cons ev es ih => exact (roots_after o m l ev).trans (ih _ _)

/-- If a root has started with no instruction twice, no two executors that come from it hold the
same one. -/
theorem Balanced.pairwise_disjoint (h : l.Balanced) {r : Nat} {root : List Instruction}
    (hroot : l.roots[r]? = some root) (hnodup : root.Nodup) :
    (l.sharesOf r).Pairwise fun a b => a.held.Disjoint b.held := by
  have hall := h r
  rw [hroot, Option.getD_some] at hall
  have hheld : ((l.sharesOf r).flatMap (·.held)).Nodup :=
    (Multiset.coe_eq_coe.1 hall).nodup_iff.2 hnodup
  exact (List.nodup_flatMap.1 hheld).2

/-! ## What is lost -/

theorem lost_retire (n k : Nat) : (l.retire n k).lost = l.lost := by
  unfold retire
  split <;> rfl

/-- An event in which no program is loaded loses at most what it forfeits. -/
theorem exists_lost_after (hstock : l.stock = m.stock) (harrivals : m.world.arrivals = [])
    {ev : Event} (hload : ∀ n, ev = .turn n → ∀ i t, m.Dispatches o n i t →
      Opcode.ofCode? i.opcode ≠ some .loadProgram) :
    ∃ new, (l.after o m ev).lost = l.lost ++ new ∧ ∀ share ∈ new, ∃ n is,
      ev = .turn n ∧ m.Forfeits o n is ∧ share.held.Perm is := by
  cases ev with
  | stop | host refusal => exact ⟨[], (List.append_nil _).symm, fun _ h => by cases h⟩
  | turn n =>
    change ∃ new, ((l.record o m n).retire n _).lost = _ ∧ _
    rw [lost_retire]
    by_cases hforfeits : ∃ is, m.Forfeits o n is
    · rcases hforfeits with ⟨is, his⟩
      rcases lost_record_of_forfeits hstock harrivals his with ⟨new, hlost, -, hshares⟩
      exact ⟨new, hlost, fun share hshare => ⟨n, is, rfl, his, hshares share hshare⟩⟩
    · refine ⟨[], ?_, fun _ h => by cases h⟩
      rw [List.append_nil]
      exact lost_record_of_not_forfeits hstock harrivals (hload n rfl) (not_exists.1 hforfeits)

/-- What is lost after a schedule in which no program is loaded has been forfeited in one of its
turns. -/
theorem forfeits_of_mem_lost {es : List Event} (hstock : l.stock = m.stock)
    (harrivals : m.world.arrivals = [])
    (hload : ∀ x ∈ m.history o es, ∀ n, x.2 = .turn n → ∀ i t, x.1.Dispatches o n i t →
      Opcode.ofCode? i.opcode ≠ some .loadProgram) {share : Share}
    (hshare : share ∈ (l.along o m es).lost) : share ∈ l.lost ∨ ∃ x ∈ m.history o es, ∃ n is,
      x.2 = .turn n ∧ x.1.Forfeits o n is ∧ share.held.Perm is := by
  induction es generalizing l m with
  | nil => exact .inl hshare
  | cons ev es ih =>
    rcases List.forall_mem_cons.1 hload with ⟨hfirst, hrest⟩
    rcases ih (stock_after hstock harrivals ev) (Machine.after_arrivals harrivals ev) hrest hshare
      with hlost | ⟨x, hx, hforfeits⟩
    · rcases exists_lost_after hstock harrivals hfirst with ⟨new, hnew, hnews⟩
      rw [hnew] at hlost
      rcases List.mem_append.1 hlost with hold | hmem
      · exact .inl hold
      · exact .inr ⟨_, List.mem_cons_self, hnews share hmem⟩
    · exact .inr ⟨x, List.mem_cons_of_mem _ hx, hforfeits⟩

end Ledger

/-- After every schedule the ledger tells what the executors hold. As long as no program is loaded
in place of another, the executors that come from a root, the first root being the main program,
hold together what the root has started with, but for what is lost; and only that is lost which a
spawn has taken out for a thread that the host has refused. Every spawn that is accepted next splits
the program of its executor, which goes on behind, and every one that is refused next loses what it
has taken out. -/
theorem Machine.instructions_conserved (o : Options) (world : World) (is : List Instruction)
    (active : UInt32) (es : List Event) :
    let start := Machine.start o { world with arrivals := [] } (.ofList is) active
    let m := start.play o es
    let l := (Ledger.start is).along o start es
    l.stock = m.stock ∧ [is] <+: l.roots ∧
      ((∀ x ∈ start.history o es, ∀ n, x.2 = .turn n → ∀ i t, x.1.Dispatches o n i t →
          Opcode.ofCode? i.opcode ≠ some .loadProgram) →
        l.Balanced ∧
          (∀ (r : Nat) (root : List Instruction), l.roots[r]? = some root → root.Nodup →
            (l.sharesOf r).Pairwise fun a b => a.held.Disjoint b.held) ∧
          ∀ share ∈ l.lost, ∃ x ∈ start.history o es, ∃ n is,
            x.2 = .turn n ∧ x.1.Forfeits o n is ∧ share.held.Perm is) ∧
      (∀ (n : Nat) (e : Executor) (callers : List Suspended) (i : Instruction) (s : Focus)
        (byLabel joined : Bool) (effect : Effect) (t : Focus),
        m.threads[n]? = some (.running e callers) → Focus.Dispatches o ⟨m.world, e⟩ i s →
        Opcode.ofCode? i.opcode = some (.spawn byLabel joined) → i.run o s = .ok effect t →
          ∃ first past, i.Asks byLabel s first past ∧ m.Splits o n e callers i t first past) ∧
      ∀ n is, m.Forfeits o n is → ∃ new, (l.after o m (.turn n)).lost = l.lost ++ new ∧
        (new.flatMap (·.held)).Perm is := by
  intro start m l
  have hstart : (Ledger.start is).Balanced := by
    intro r
    cases r with
    | zero => simp [Ledger.start, Ledger.sharesOf]
    | succ r => simp [Ledger.start, Ledger.sharesOf]
  rcases Ledger.stock_along (o := o) (l := .start is) (m := start) rfl rfl es
    with ⟨hstock, harrivals⟩
  refine ⟨hstock, Ledger.roots_along o start (Ledger.start is) es, ?_, ?_, ?_⟩
  · intro hload
    have hbalanced : l.Balanced := hstart.along (m := start) rfl rfl hload
    refine ⟨hbalanced, fun r root => hbalanced.pairwise_disjoint, fun share hshare => ?_⟩
    rcases Ledger.forfeits_of_mem_lost (m := start) rfl rfl hload hshare with hlost | hforfeits
    · cases hlost
    · exact hforfeits
  · intro n e callers i s byLabel joined effect t hthread hdispatched hcode hrun
    exact exists_splits harrivals hthread hdispatched hcode hrun
  · intro n is hforfeits
    rcases Ledger.lost_record_of_forfeits hstock harrivals hforfeits with ⟨new, hlost, hperm, -⟩
    exact ⟨new, (Ledger.lost_retire n _).trans hlost, hperm⟩

/-- A spawn of what is between two labels. -/
def Program.parted : List Instruction :=
  [⟨0, 143, [[97], [98]]⟩, ⟨1, 125, [[97]]⟩, ⟨2, 125, [[98]]⟩]

/-- The label that is spawned is still there, and held by no one else. -/
theorem Machine.instructions_conserved_parted :
    let start := Machine.start {} {} (.ofList Program.parted) 0
    let l := (Ledger.start Program.parted).along {} start [.turn 0, .turn 1]
    l.stock = [[[⟨0, 143, [[97], [98]]⟩, ⟨2, 125, [[98]]⟩]], [[⟨1, 125, [[97]]⟩]]] ∧
      (∀ x ∈ start.history {} [.turn 0, .turn 1], ∀ n, x.2 = .turn n → ∀ i t,
        x.1.Dispatches {} n i t → Opcode.ofCode? i.opcode ≠ some .loadProgram) ∧
      l.Balanced := by
  intro start l
  have hload : ∀ x ∈ start.history {} [.turn 0, .turn 1], ∀ n, x.2 = .turn n → ∀ i t,
      x.1.Dispatches {} n i t → Opcode.ofCode? i.opcode ≠ some .loadProgram := by
    intro x hx n hn i t ⟨e, callers, hthread, hdispatched⟩
    rcases hx with _ | ⟨_, _ | ⟨_, hx⟩⟩
    · cases hn
      cases (Option.some.inj hthread :
        Thread.running { program := .ofList Program.parted, active := 0 } [] = _)
      cases Option.some.inj hdispatched.instruction
      decide
    · -- What has been spawned is the first label.
      cases hn
      cases (Option.some.inj hthread :
        Thread.running { program := .ofList [⟨1, 125, [[97]]⟩], active := 0 } [] = _)
      cases Option.some.inj hdispatched.instruction
      decide
    · cases hx
  have hconserved := Machine.instructions_conserved {} {} Program.parted 0 [.turn 0, .turn 1]
  exact ⟨by decide, hload, (hconserved.2.2.1 hload).1⟩

/-- A spawn of the first label, in front of an instruction that a handler refuses. -/
def Machine.forked : Machine where
  world := { table := .insert Table.initial 0 { handler := some {
    name := "guard"
    claimed := []
    before := fun call => if call.opcode = 58 then .refuse "begin refused" else pure ()
    handle := fun _ => pure () } } }
  threads := [.running { program := .ofList [⟨0, 125, [[97]]⟩, ⟨1, 125, [[98]]⟩,
    ⟨2, 143, [[97], [98]]⟩, ⟨3, 58, []⟩, ⟨4, 115, []⟩], active := 0, mode := .none } []]

/-- On a host that refuses the thread, the label that is spawned is lost. And where the host gives
the thread, the instruction behind the spawn is still in the program of its executor, but the next
one that is dispatched is the one behind it. -/
theorem Machine.instructions_lost_or_skipped :
    (let start := Machine.start {} {} (.ofList Program.parted) 0
      let l := (Ledger.start Program.parted).along {} start [.host (some "no more"), .turn 0]
      l.stock = [[[⟨0, 143, [[97], [98]]⟩, ⟨2, 125, [[98]]⟩]]] ∧
        l.lost = [⟨0, [⟨1, 125, [[97]]⟩]⟩]) ∧
      (((forked.log {} 0 0 (List.replicate 5 (.turn 0))).filterMap fun x =>
          match x.deed with
          | .dispatches i => some i.line
          | _ => none) = [0, 1, 2, 4]) ∧
        (forked.play {} (List.replicate 5 (.turn 0))).stock.map (·.map (·.map (·.line))) =
          [[[1, 2, 3, 4]], [[0]]] := by
  decide +kernel

end CellMachine
