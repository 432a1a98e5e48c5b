import CellMachine.Machine.Turn
import CellMachine.Proofs.Machine.Failure
import Mathlib.Tactic.SplitIfs

/-!
# What an instruction reads and changes

This module proves what a data instruction depends on whose arguments name all its cells, or one
that deletes a cell. What it does to the namespace is a `Patch` of one cell, which its arguments
name; it is computed from the cells that the arguments name, and no others count. Patches of
different cells may change places.
-/

namespace CellMachine

open Stateful

/-! ## Patches -/

structure Patch where
  address : UInt32
  value : Option Bytes

namespace Namespace

variable {ns ns' : Namespace} {p q : Patch}

def patch (ns : Namespace) (p : Patch) : Namespace :=
  match p.value with
  | some v => ns.insert p.address v
  | none => ns.erase p.address

theorem get?_patch (ns : Namespace) (p : Patch) (address : UInt32) :
    (ns.patch p).get? address = if address = p.address then p.value else ns.get? address := by
  unfold patch
  cases h : p.value with
  | some v => rw [OrderedMap.get?_insert]
  | none => rw [OrderedMap.get?_erase]

/-- Patches of different cells may change places. -/
theorem patch_comm (h : p.address ≠ q.address) (ns : Namespace) :
    (ns.patch p).patch q = (ns.patch q).patch p := by
  apply OrderedMap.ext_get?
  intro address
  simp only [get?_patch]
  split_ifs with hq hp hp
  · exact absurd (hp.symm.trans hq) h
  · rfl
  · rfl
  · rfl

end Namespace

namespace Table

variable {t : Table} {id id' : UInt32} {p q : Patch}

/-- The table after a patch of the cells of a namespace, if there is one. -/
def patch (t : Table) (id : UInt32) (p : Patch) : Table :=
  match t.get? id with
  | some slot => t.insert id { slot with memory := slot.memory.patch p }
  | none => t

theorem get?_patch (t : Table) (id id' : UInt32) (p : Patch) : (t.patch id p).get? id' =
    (t.get? id').map fun slot =>
      if id' = id then { slot with memory := slot.memory.patch p } else slot := by
  unfold patch
  cases h : t.get? id with
  | some slot =>
    rw [OrderedMap.get?_insert]
    split_ifs with hid
    · rw [hid, h, Option.map_some]
    · exact Option.map_id'.symm
  | none =>
    split_ifs with hid
    · rw [hid, h, Option.map_none]
    · exact Option.map_id'.symm

theorem handler?_patch (t : Table) (id id' : UInt32) (p : Patch) :
    (t.patch id p).handler? id' = t.handler? id' := by
  rw [handler?, handler?, get?_patch]
  cases t.get? id' with
  | none => rfl
  | some slot =>
    rw [Option.map_some, Option.bind_some, Option.bind_some]
    split_ifs
    · rfl
    · rfl

theorem memory_patch (t : Table) (id id' : UInt32) (p : Patch) : (t.patch id p).memory id' =
    (t.memory id').map fun ns => if id' = id then ns.patch p else ns := by
  rw [memory, memory, get?_patch]
  cases t.get? id' with
  | none => rfl
  | some slot =>
    simp only [Option.map_some, Except.map]
    split_ifs
    · rfl
    · rfl

/-- Patches of different namespaces, or of different cells of one, may change places. -/
theorem patch_comm (h : id = id' → p.address ≠ q.address) (t : Table) :
    (t.patch id p).patch id' q = (t.patch id' q).patch id p := by
  apply OrderedMap.ext_get?
  intro k
  simp only [get?_patch, Option.map_map]
  congr 1
  funext slot
  simp only [Function.comp]
  split_ifs with hk hk' hk'
  · have hne : p.address ≠ q.address := h (hk'.symm.trans hk)
    simp only [Namespace.patch_comm hne]
  · rfl
  · rfl
  · rfl

end Table

/-! ## Footprints -/

/-- Which arguments of an operation are addresses of cells that it reads, unless it reads cells that
no argument names. -/
def DataOp.sources? : DataOp → Option (List Nat)
  | store => some []
  | copy | length | not | reverse | convert _ => some [0]
  | concat | keepFront | dropFront | replicate | compare | uint _ | sint _ | float _ | big _ =>
    some [0, 1]
  | insert | removeRange | slice => some [0, 1, 2]
  | snapshot | loadIndirect | storeIndirect | listAddresses => none

namespace Opcode

/-- The numbers of the opcodes whose arguments name every cell that they read, set or delete. -/
def literalCodes : List Nat :=
  List.range' 2 8 ++ [18, 19, 26, 45, 87, 116] ++
    (List.range' 10 8 ++ List.range' 31 8 ++ [69, 70, 85, 86, 123, 124] ++ List.range' 145 8) ++
    (List.range' 39 6 ++ List.range' 153 6)

/-- Which arguments are addresses of cells that are read, and which one is that of the cell that is
set or deleted. -/
def footprint? : Opcode → Option (List Nat × Nat)
  | data op => op.sources?.map fun sources => (sources, op.destination)
  | delete => some ([], 0)
  | _ => none

/-- The opcodes with a footprint are those of the list. -/
theorem isSome_footprint?_iff {code : UInt32} :
    ((ofCode? code).bind footprint?).isSome ↔ code.toNat ∈ literalCodes := by
  have hlisted : ∀ n ∈ literalCodes, ((ofCode? (UInt32.ofNat n)).bind footprint?).isSome := by
    decide +kernel
  have hentries : ∀ e ∈ table, e.op.footprint?.isSome → e.code ∈ literalCodes := by
    decide +kernel
  constructor
  · intro h
    cases hop : ofCode? code with
    | none =>
      rw [hop] at h
      cases h
    | some op =>
      rcases exists_mem_table_of_ofCode? hop with ⟨e, he, hcode, rfl⟩
      rw [hop] at h
      rw [← hcode]
      exact hentries e he h
  · intro h
    have hcode := hlisted _ h
    rwa [UInt32.ofNat_toNat] at hcode

end Opcode

namespace Instruction

def cells (i : Instruction) (positions : List Nat) : List UInt32 :=
  positions.filterMap fun n => (i.address n).toOption

def footprint? (i : Instruction) : Option (List Nat × Nat) :=
  (Opcode.ofCode? i.opcode).bind Opcode.footprint?

def reads (i : Instruction) : List UInt32 :=
  match i.footprint? with
  | some (sources, _) => i.cells sources
  | none => []

def writes (i : Instruction) : List UInt32 :=
  match i.footprint? with
  | some (_, destination) => i.cells [destination]
  | none => []

def deletion (i : Instruction) (memory : Except Fault Namespace) : Except Fault Patch := do
  let address ← i.address 0
  let ns ← memory
  let _ ← ns.load address
  return ⟨address, none⟩

/-- What an instruction does to the cells of the active namespace, if that exists. -/
def patch (i : Instruction) (memory : Except Fault Namespace) : Except Fault Patch :=
  match Opcode.ofCode? i.opcode with
  | some (.data op) => do
    let (dest, v) ← op.eval i memory
    return ⟨dest, some v⟩
  | some .delete => i.deletion memory
  | _ => .error (.unknownOpcode i.opcode)

theorem mem_cells {i : Instruction} {positions : List Nat} {n : Nat} {a : UInt32}
    (hn : n ∈ positions) (ha : i.address n = .ok a) : a ∈ i.cells positions :=
  List.mem_filterMap.2 ⟨n, hn, by rw [ha]; rfl⟩

/-! ## What an instruction depends on -/

variable {i : Instruction} {ns ns' : Namespace} {positions : List Nat} {n : Nat}

theorem value_of_address {a : UInt32} (ha : i.address n = .ok a) : i.value ns n = ns.load a := by
  rw [value, ha]
  rfl

theorem value_congr (h : ∀ a ∈ i.cells positions, ns.get? a = ns'.get? a) (hn : n ∈ positions) :
    i.value ns n = i.value ns' n := by
  cases ha : i.address n with
  | error f =>
    rw [value, value, ha]
    rfl
  | ok a =>
    rw [value_of_address ha, value_of_address ha, Namespace.load, Namespace.load,
      h a (mem_cells hn ha)]

theorem uint_congr (h : ∀ a ∈ i.cells positions, ns.get? a = ns'.get? a) (hn : n ∈ positions) :
    i.uint ns n = i.uint ns' n := by
  rw [uint, uint, value_congr h hn]

theorem sint_congr (h : ∀ a ∈ i.cells positions, ns.get? a = ns'.get? a) (hn : n ∈ positions) :
    i.sint ns n = i.sint ns' n := by
  rw [sint, sint, value_congr h hn]

theorem float_congr (h : ∀ a ∈ i.cells positions, ns.get? a = ns'.get? a) (hn : n ∈ positions) :
    i.float ns n = i.float ns' n := by
  rw [float, float, value_congr h hn]

theorem text_congr (h : ∀ a ∈ i.cells positions, ns.get? a = ns'.get? a) (hn : n ∈ positions) :
    i.text ns n = i.text ns' n := by
  rw [text, text, value_congr h hn]

end Instruction

/-- A conversion depends on the cell that argument 0 names. -/
theorem Conversion.value_congr {i : Instruction} {ns ns' : Namespace} (c : Conversion)
    (h : ∀ a ∈ i.cells [0], ns.get? a = ns'.get? a) : c.value i ns = c.value i ns' := by
  have h0 : 0 ∈ [0] := List.mem_singleton_self 0
  unfold value
  rw [Instruction.uint_congr h h0, Instruction.sint_congr h h0, Instruction.float_congr h h0,
    Instruction.text_congr h h0]

namespace DataOp

variable {i : Instruction} {ns ns' : Namespace} {sources : List Nat}

theorem value_congr {op : DataOp} (hop : op.sources? = some sources)
    (h : ∀ a ∈ i.cells sources, ns.get? a = ns'.get? a) : op.value i ns = op.value i ns' := by
  cases op with
  | snapshot | loadIndirect | storeIndirect | listAddresses => cases hop
  | store => rfl
  | copy | length | not | reverse =>
    cases hop
    simp only [value, Instruction.value_congr h, Instruction.uint_congr h, List.mem_cons, true_or]
  | convert c =>
    cases hop
    exact c.value_congr h
  | concat | keepFront | dropFront | replicate | compare | uint _ | sint _ | float _ | big _ =>
    cases hop
    simp only [value, Instruction.value_congr h, Instruction.uint_congr h, Instruction.sint_congr h,
      Instruction.float_congr h, List.mem_cons, true_or, or_true]
  | insert | removeRange | slice =>
    cases hop
    simp only [value, Instruction.value_congr h, Instruction.uint_congr h, List.mem_cons, true_or,
      or_true]

theorem eval_congr {op : DataOp} (hop : op.sources? = some sources)
    (h : ∀ a ∈ i.cells sources, ns.get? a = ns'.get? a) :
    op.eval i (.ok ns) = op.eval i (.ok ns') := by
  have hvalue := value_congr hop h
  cases op with
  | snapshot | loadIndirect | storeIndirect | listAddresses => cases hop
  | store => rfl
  | _ => simp only [eval, bind, Except.bind, hvalue]

/-- The cell that is set is the one that the destination names. -/
theorem address_of_eval {op : DataOp} (hop : op.sources? = some sources) {dest : UInt32} {v : Bytes}
    (h : op.eval i (.ok ns) = .ok (dest, v)) : i.address op.destination = .ok dest := by
  cases op with
  | snapshot | loadIndirect | storeIndirect | listAddresses => cases hop
  | store =>
    simp only [eval, bind, Except.bind] at h
    cases harg : i.arg 0 with
    | error f => simp [harg] at h
    | ok literal =>
      cases haddress : i.address 1 with
      | error f => simp [harg, haddress] at h
      | ok a =>
        simp only [harg, haddress, pure, Except.pure, Except.ok.injEq, Prod.mk.injEq] at h
        rw [destination, haddress, h.1]
  | _ =>
    simp only [eval, bind, Except.bind] at h
    split at h
    · cases h
    · rename_i a ha
      split at h
      · cases h
      · cases h
        exact ha

/-- Without memory every operation fails. -/
theorem eval_ne_ok (op : DataOp) (i : Instruction) (f : Fault) (r : UInt32 × Bytes) :
    op.eval i (.error f) ≠ .ok r := by
  intro h
  cases op with
  | storeIndirect => cases h
  | store =>
    simp only [eval, bind, Except.bind] at h
    split at h
    · cases h
    · split at h
      · cases h
      · cases h
  | _ =>
    simp only [eval, bind, Except.bind] at h
    split at h
    · cases h
    · cases h

end DataOp

namespace Instruction

variable {i : Instruction} {ns ns' : Namespace} {p : Patch}

theorem footprint?_cases (h : i.footprint?.isSome) :
    (∃ op sources, Opcode.ofCode? i.opcode = some (.data op) ∧ op.sources? = some sources) ∨
      Opcode.ofCode? i.opcode = some .delete := by
  unfold footprint? at h
  cases hop : Opcode.ofCode? i.opcode with
  | none =>
    rw [hop] at h
    cases h
  | some op =>
    rw [hop] at h
    cases op with
    | delete => exact .inr rfl
    | data op =>
      cases hsources : op.sources? with
      | none =>
        rw [Option.bind_some, Opcode.footprint?, hsources] at h
        cases h
      | some sources => exact .inl ⟨op, sources, rfl, hsources⟩
    | _ => cases h

theorem deletion_congr (h : ∀ a ∈ i.cells [0], ns.get? a = ns'.get? a) :
    i.deletion (.ok ns) = i.deletion (.ok ns') := by
  unfold deletion
  cases ha : i.address 0 with
  | error f => rfl
  | ok a =>
    have hload : ns.load a = ns'.load a := by
      rw [Namespace.load, Namespace.load, h a (mem_cells (List.mem_singleton_self 0) ha)]
    simp only [bind, Except.bind, hload]

theorem address_of_deletion (h : i.deletion (.ok ns) = .ok p) : i.address 0 = .ok p.address := by
  unfold deletion at h
  cases ha : i.address 0 with
  | error f =>
    rw [ha] at h
    cases h
  | ok a =>
    simp only [ha, bind, Except.bind] at h
    split at h
    · cases h
    · cases h
      rfl

theorem deletion_ne_ok (i : Instruction) (f : Fault) (p : Patch) :
    i.deletion (.error f) ≠ .ok p := by
  unfold deletion
  intro h
  cases ha : i.address 0 with
  | error e =>
    rw [ha] at h
    cases h
  | ok a =>
    rw [ha] at h
    cases h

/-- What an instruction does depends on no cells but its own. -/
theorem patch_congr (hi : i.footprint?.isSome) (hreads : ∀ a ∈ i.reads, ns.get? a = ns'.get? a)
    (hwrites : ∀ a ∈ i.writes, ns.get? a = ns'.get? a) : i.patch (.ok ns) = i.patch (.ok ns') := by
  unfold reads at hreads
  unfold writes at hwrites
  unfold patch
  rcases footprint?_cases hi with ⟨op, sources, hop, hsources⟩ | hop
  · simp only [footprint?, hop, Option.bind_some, Opcode.footprint?, hsources, Option.map_some]
      at hreads
    simp only [hop, DataOp.eval_congr hsources hreads]
  · simp only [footprint?, hop, Option.bind_some, Opcode.footprint?] at hwrites
    simp only [hop, deletion_congr hwrites]

/-- An instruction without memory changes nothing. -/
theorem patch_ne_ok (i : Instruction) (f : Fault) (p : Patch) : i.patch (.error f) ≠ .ok p := by
  unfold patch
  intro h
  split at h
  · rename_i op hop
    cases heval : op.eval i (.error f) with
    | error e =>
      rw [heval] at h
      cases h
    | ok r => exact op.eval_ne_ok i f r heval
  · exact i.deletion_ne_ok f p h
  · cases h

/-- What it changes is the cell that it sets or deletes. -/
theorem address_mem_writes {memory : Except Fault Namespace} (hi : i.footprint?.isSome)
    (h : i.patch memory = .ok p) : p.address ∈ i.writes := by
  cases memory with
  | error f => exact absurd h (i.patch_ne_ok f p)
  | ok ns =>
    unfold patch at h
    unfold writes
    rcases footprint?_cases hi with ⟨op, sources, hop, hsources⟩ | hop
    · simp only [hop] at h
      simp only [footprint?, hop, Option.bind_some, Opcode.footprint?, hsources, Option.map_some]
      cases heval : op.eval i (.ok ns) with
      | error f =>
        rw [heval] at h
        cases h
      | ok r =>
        rw [heval] at h
        cases h
        exact mem_cells (List.mem_singleton_self _) (DataOp.address_of_eval hsources heval)
    · simp only [hop] at h
      simp only [footprint?, hop, Option.bind_some, Opcode.footprint?]
      exact mem_cells (List.mem_singleton_self 0) (address_of_deletion h)

end Instruction

/-! ## Running an instruction -/

/-- The state with a patch of the cells of the active namespace. -/
def Focus.patch (s : Focus) (p : Patch) : Focus :=
  { s with world := { s.world with table := s.world.table.patch s.exec.active p } }

theorem Action.setMemory_patch {s : Focus} {ns : Namespace} {p : Patch}
    (h : s.world.table.memory s.exec.active = .ok ns) :
    setMemory (ns.patch p) s = .ok () (s.patch p) := by
  rw [setMemory_eq, Focus.slot?]
  unfold Table.memory at h
  cases hslot : s.world.table.get? s.exec.active with
  | none =>
    rw [hslot] at h
    cases h
  | some slot =>
    rw [hslot] at h
    cases h
    simp only [Focus.patch, Focus.withCells, Table.patch, hslot]

theorem Action.memory_of_ok {s : Focus} {ns : Namespace}
    (h : s.world.table.memory s.exec.active = .ok ns) : memory s = .ok ns s := by
  change ofExcept (s.world.table.memory s.exec.active) s = _
  rw [h]
  rfl

theorem Action.memory_of_error {s : Focus} {f : Fault}
    (h : s.world.table.memory s.exec.active = .error f) : memory s = .error (.fault f) s := by
  change ofExcept (s.world.table.memory s.exec.active) s = _
  rw [h]
  rfl

theorem Action.setCell_patch {s : Focus} {ns : Namespace}
    (h : s.world.table.memory s.exec.active = .ok ns) (a : UInt32) (v : Bytes) :
    setCell a v s = .ok () (s.patch ⟨a, some v⟩) :=
  (bind_of_ok (memory_of_ok h) _).trans (setMemory_patch (p := ⟨a, some v⟩) h)

theorem Action.atOnce_of_ok {a : Action Flow} {s t : Focus} {f : Flow} (h : a s = .ok f t) :
    atOnce a s = .ok (.flow f) t :=
  bind_of_ok h _

theorem Action.atOnce_of_error {a : Action Flow} {s t : Focus} {e : Abort} (h : a s = .error e t) :
    atOnce a s = .error e t :=
  bind_of_error h _

theorem Action.data_eq (op : DataOp) (i : Instruction) (s : Focus) : data op i s =
    match op.eval i (s.world.table.memory s.exec.active) with
    | .ok (dest, v) => .ok .next (s.patch ⟨dest, some v⟩)
    | .error f => .error (.fault f) s := by
  change (ofExcept (op.eval i (s.world.table.memory s.exec.active)) >>= fun r =>
    setCell r.1 r.2 >>= fun _ => pure Flow.next) s = _
  cases heval : op.eval i (s.world.table.memory s.exec.active) with
  | error f => rfl
  | ok r =>
    cases hmemory : s.world.table.memory s.exec.active with
    | error f =>
      rw [hmemory] at heval
      exact absurd heval (op.eval_ne_ok i f r)
    | ok ns => exact bind_of_ok (setCell_patch hmemory r.1 r.2) _

theorem Namespace.remove_eq (ns : Namespace) (address : UInt32) :
    ns.remove address = (ns.load address).map fun _ => ns.patch ⟨address, none⟩ := by
  unfold remove load OrderedMap.contains
  cases ns.get? address with
  | some v => rfl
  | none => rfl

theorem Action.deleteCell_eq (i : Instruction) (s : Focus) : deleteCell i s =
    match i.deletion (s.world.table.memory s.exec.active) with
    | .ok p => .ok .next (s.patch p)
    | .error f => .error (.fault f) s := by
  change (ofExcept (i.address 0) >>= fun address =>
    (reading fun ns => ns.remove address) >>= fun ns => setMemory ns >>= fun _ =>
      pure Flow.next) s = _
  unfold Instruction.deletion
  cases i.address 0 with
  | error f => rfl
  | ok address =>
    change ((memory >>= fun ns => ofExcept (ns.remove address)) >>= fun ns =>
      setMemory ns >>= fun _ => pure Flow.next) s = _
    cases hmemory : s.world.table.memory s.exec.active with
    | error f =>
      exact bind_of_error (bind_of_error (memory_of_error hmemory) _) _
    | ok ns =>
      have hread := bind_of_ok (memory_of_ok hmemory) fun ns => ofExcept (ns.remove address)
      rw [Namespace.remove_eq] at hread
      simp only [bind, Except.bind]
      cases hload : ns.load address with
      | error f =>
        rw [hload] at hread
        exact bind_of_error hread _
      | ok v =>
        rw [hload] at hread
        have hset := setMemory_patch (p := ⟨address, none⟩) hmemory
        exact (bind_of_ok hread _).trans (bind_of_ok hset _)

/-- An instruction that names its cells patches one of them and goes on, or fails and leaves
everything as it is. -/
theorem Instruction.run_eq {i : Instruction} (hi : i.footprint?.isSome) (o : Options) (s : Focus) :
    i.run o s =
      match i.patch (s.world.table.memory s.exec.active) with
      | .ok p => .ok (.flow .next) (s.patch p)
      | .error f => .error (.fault f) s := by
  rcases footprint?_cases hi with ⟨op, sources, hop, -⟩ | hop
  · have hdata := Action.data_eq op i s
    simp only [run, patch, hop, Opcode.run]
    cases heval : op.eval i (s.world.table.memory s.exec.active) with
    | error f =>
      rw [heval] at hdata
      exact Action.atOnce_of_error hdata
    | ok r =>
      rw [heval] at hdata
      exact Action.atOnce_of_ok hdata
  · have hdelete := Action.deleteCell_eq i s
    simp only [run, patch, hop, Opcode.run]
    cases hdeletion : i.deletion (s.world.table.memory s.exec.active) with
    | error f =>
      rw [hdeletion] at hdelete
      exact Action.atOnce_of_error hdelete
    | ok p =>
      rw [hdeletion] at hdelete
      exact Action.atOnce_of_ok hdelete

theorem Action.callHook_of_none {s : Focus} (h : s.world.table.handler? s.exec.active = none)
    (hook : Hook) (i : Instruction) : callHook hook i s = .ok () s := by
  have hhandler : handler? s = .ok none s := by
    rw [← h]
    rfl
  exact bind_of_ok hhandler _

theorem Action.finish_of_none {s : Focus} (h : s.world.table.handler? s.exec.active = none)
    (i : Instruction) (f : Flow) :
    finish i f s = .ok () { s with exec := s.exec.follow f } :=
  bind_of_ok (callHook_of_none h .after i) _

theorem Action.runInstruction_of_ok {i : Instruction} {o : Options} {s t : Focus} {f : Flow}
    (hfree : s.world.table.handler? s.exec.active = none) (h : i.run o s = .ok (.flow f) t)
    (hfree' : t.world.table.handler? t.exec.active = none) :
    runInstruction o i s = .ok .ready { t with exec := t.exec.follow f } := by
  unfold runInstruction
  rw [bind_of_ok (callHook_of_none hfree .before i), bind_of_ok h]
  exact bind_of_ok (finish_of_none hfree' i f) _

theorem Action.runInstruction_of_error {i : Instruction} {o : Options} {s t : Focus} {e : Abort}
    (hfree : s.world.table.handler? s.exec.active = none) (h : i.run o s = .error e t) :
    runInstruction o i s = .error e t := by
  unfold runInstruction
  rw [bind_of_ok (callHook_of_none hfree .before i)]
  exact bind_of_error h _

/-- Without a bound extension, an instruction that names its cells patches one of them and goes on,
or fails and leaves everything as it is. -/
theorem Action.runInstruction_eq {i : Instruction} {s : Focus} (hi : i.footprint?.isSome)
    (hfree : s.world.table.handler? s.exec.active = none) (o : Options) :
    runInstruction o i s =
      match i.patch (s.world.table.memory s.exec.active) with
      | .ok p => .ok .ready { s.patch p with exec := s.exec.follow .next }
      | .error f => .error (.fault f) s := by
  have hrun := Instruction.run_eq hi o s
  cases hpatch : i.patch (s.world.table.memory s.exec.active) with
  | error f =>
    rw [hpatch] at hrun
    exact runInstruction_of_error hfree hrun
  | ok p =>
    rw [hpatch] at hrun
    have hfree' : (s.patch p).world.table.handler? (s.patch p).exec.active = none :=
      (Table.handler?_patch s.world.table s.exec.active s.exec.active p).trans hfree
    exact runInstruction_of_ok hfree hrun hfree'

end CellMachine
