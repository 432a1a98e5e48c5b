import CellMachine.Proofs.Machine.Spawn
import CellMachine.Proofs.Machine.Turn
import Mathlib.Logic.Relation

/-!
# Active namespaces

This module proves that an executor never loses its own active namespace. Of all instructions only
two take namespaces out of the table, and these spare the active one; only one makes another
namespace active, and it asks for one that exists. Hence every instruction on the cells of the
active namespace finds them.
-/

namespace CellMachine

open Stateful

variable {α β : Type} {o : Options} {s t : Focus} {i : Instruction} {id : UInt32}
  {J : Table → UInt32 → Prop}

def Focus.Meets (J : Table → UInt32 → Prop) (s : Focus) : Prop := J s.world.table s.exec.active

/-- In the state `s` the instruction takes the namespace `id` out of the table. -/
def Instruction.Removes (i : Instruction) (s : Focus) (id : UInt32) : Prop :=
  match Opcode.ofCode? i.opcode with
  | some .deleteNamespace =>
    s.exec.active ≠ id ∧ ∃ slot, s.slot? = some slot ∧ i.uint slot.memory 0 = .ok id
  | some .pruneNamespaces => s.exec.active ≠ id
  | _ => False

/-- No instruction takes out the active namespace. -/
theorem Instruction.not_removes_active (i : Instruction) (s : Focus) :
    ¬i.Removes s s.exec.active := by
  intro h
  unfold Removes at h
  split at h
  · exact h.1 rfl
  · exact h rfl
  · exact h

namespace Table

def Has (id : UInt32) (t : Table) (_active : UInt32) : Prop := t.contains id = true

def HasActive (t : Table) (active : UInt32) : Prop := t.contains active = true

end Table

/-! ## Properties that last -/

/-- The property holds on as long as no namespace is taken out of the table and the active one stays
active. -/
def Lasting (J : Table → UInt32 → Prop) : Prop :=
  ∀ t t' active, (∀ id, t.contains id = true → t'.contains id = true) → J t active → J t' active

theorem lasting_has (id : UInt32) : Lasting (Table.Has id) :=
  fun _ _ _ hkept h => hkept id h

theorem lasting_hasActive : Lasting Table.HasActive :=
  fun _ _ active hkept h => hkept active h

theorem lasting_active (J : UInt32 → Prop) : Lasting fun _ active => J active :=
  fun _ _ _ _ h => h

namespace Lasting

variable (hJ : Lasting J)
include hJ

theorem stable (o : Options) : Stable o (Focus.Meets J) where
  table hs hkept := hJ _ _ _ hkept hs
  storage {s p t} hs _ _ := by
    unfold Focus.withStorage
    cases s.exec.usesBundle <;> exact hs
  input _ hs := hs
  sink _ hs := hs
  binds _ hs := hs
  notes _ hs := hs
  calls _ hs := hs
  output _ hs := hs
  mode _ hs := hs
  files _ hs := hs
  clock _ hs := hs

/-- Only instructions after which a namespace may be gone can upset the property. -/
theorem maintains_instruction (hs : s.Meets J)
    (hleaves : ∀ op : Opcode, Opcode.ofCode? i.opcode = some op → op.LeavesNamespace →
      Maintains (Focus.Meets J) s (op.run o i)) :
    Maintains (Focus.Meets J) s (i.run o) := by
  refine (hJ.stable o).ensures_instruction hs i (fun _ _ ht _ => ht) ?_ hleaves fun _ => hs
  intro op _ hedits
  cases op with
  | spawn byLabel joined =>
    refine Opcode.ensures_spawn hs (fun _ _ _ => hs) fun _ _ _ => ?_
    cases joined <;> exact hs
  | loadProgram => exact Opcode.ensures_loadProgram hs fun _ _ _ => hs
  | _ => exact hedits.elim

/-- And so it is with turns. -/
theorem maintains_turn (hs : s.Meets J)
    (hleaves : ∀ i t, s.Dispatches o i t → t.Meets J →
      ∀ op : Opcode, Opcode.ofCode? i.opcode = some op → op.LeavesNamespace →
        Maintains (Focus.Meets J) t (op.run o i)) :
    Maintains (Focus.Meets J) s (Guarded.turn o) := by
  have hstable := hJ.stable o
  refine Guarded.ensures_turn hstable (K := fun _ => Focus.Meets J) (fun _ => hstable)
    (fun _ => hs) (fun _ => ⟨hs, hs⟩) ?_ (fun _ _ _ ht => ht) ?_ ?_
  · intro i t hdispatched ht
    refine (hJ.maintains_instruction ht (hleaves i t hdispatched ht)).imp ?_
    intro effect u hu
    cases effect <;> exact hu
  · intro f t ht
    cases f <;> exact ht
  · intro f t ht
    rwa [Focus.Meets, Executor.afterFault_active]

/-- The hook in front of an instruction does not upset the property. -/
theorem meets_of_dispatches (hs : s.Meets J) (h : s.Dispatches o i t) : t.Meets J :=
  ((hJ.stable o).maintains_callHook (s := s.counted) hs .before i).of_ok h.before

/-- Nor does an instruction that is taken up again. -/
theorem maintains_receive (hs : s.Meets J) (i : Instruction) (r : Reception)
    (outcome : Outcome) :
    Maintains (Focus.Meets J) s (Guarded.attempt (Action.receive i r outcome)) := by
  refine Guarded.ensures_receive (hJ.stable {}) hs i r outcome (fun _ ht => ht) ?_
  intro f t ht
  rwa [Focus.Meets, Executor.afterFault_active]

theorem maintains_receiveJoined (hs : s.Meets J) (i : Instruction)
    (result : Except Panic Outcome) :
    Maintains (Focus.Meets J) s (Guarded.attempt (Action.receiveJoined i result)) := by
  refine Guarded.ensures_receiveJoined (hJ.stable {}) hs i result (fun _ ht => ht) ?_
  intro f t ht
  rwa [Focus.Meets, Executor.afterFault_active]

end Lasting

namespace Opcode

variable {op : Opcode} (hop : ofCode? i.opcode = some op) (hleaves : op.LeavesNamespace)
include hop hleaves

/-- A namespace that is not taken out stays in the table. -/
theorem maintains_has (o : Options) (hs : s.Meets (Table.Has id)) (hkept : ¬i.Removes s id) :
    Maintains (Focus.Meets (Table.Has id)) s (op.run o i) := by
  simp only [Instruction.Removes, hop] at hkept
  cases op with
  | switchNamespace =>
    refine (Steady.ensures_atOnce ?_).imp fun _ _ h => h.1
    refine Steady.reading hs fun id => ensures_get ?_
    split
    · exact ⟨hs, trivial⟩
    · exact ensures_throw hs _
  | deleteNamespace =>
    refine (Steady.ensures_atOnce ?_).imp fun _ _ h => h.1
    refine Steady.read (Action.readsOnly_reading _) hs fun id' hid' => ensures_get ?_
    refine Steady.parse hs fun t ht => ⟨?_, trivial⟩
    refine Table.contains_of_delete ht hs ?_
    -- What the table has deleted is not active, so that `id` would have been taken out.
    rintro rfl
    exact hkept ⟨(Table.ne_of_delete ht).symm, (Action.reading_eq_ok_iff.1 hid').2⟩
  | pruneNamespaces =>
    have hactive : s.exec.active = id := not_not.1 hkept
    subst hactive
    exact Table.contains_retainOnly hs
  | _ => exact hleaves.elim

/-- An executor can only make another namespace active that is in the table, and take none out but
those that are not active. -/
theorem maintains_hasActive (o : Options) (hs : s.Meets Table.HasActive) :
    Maintains (Focus.Meets Table.HasActive) s (op.run o i) := by
  cases op with
  | switchNamespace =>
    refine (Steady.ensures_atOnce ?_).imp fun _ _ h => h.1
    refine Steady.reading hs fun id => ensures_get ?_
    split
    · rename_i hid
      exact ⟨hid, trivial⟩
    · exact ensures_throw hs _
  | deleteNamespace =>
    refine (Steady.ensures_atOnce ?_).imp fun _ _ h => h.1
    refine Steady.reading hs fun id => ensures_get ?_
    refine Steady.parse hs fun t ht => ⟨?_, trivial⟩
    exact Table.contains_of_delete ht hs (Table.ne_of_delete ht).symm
  | pruneNamespaces => exact Table.contains_retainOnly hs
  | _ => exact hleaves.elim

end Opcode

/-! ## Faults -/

/-- Whatever `r` fails with, it is not that a namespace is undefined. -/
def NamespaceSafe (r : Except Fault α) : Prop := ∀ id, r ≠ .error (.undefinedNamespace id)

theorem NamespaceSafe.bind {r : Except Fault α} {k : α → Except Fault β} (hr : NamespaceSafe r)
    (hk : ∀ v, NamespaceSafe (k v)) : NamespaceSafe (r >>= k) := by
  cases r with
  | ok v => exact hk v
  | error f => exact fun id h => hr id (congrArg _ (Except.error.inj h))

theorem namespaceSafe_ok (v : α) : NamespaceSafe (.ok v : Except Fault α) := nofun

theorem NamespaceSafe.return {r : Except Fault α} (hr : NamespaceSafe r) (f : α → β) :
    NamespaceSafe (r >>= fun v => .ok (f v)) :=
  hr.bind fun v => namespaceSafe_ok (f v)

theorem namespaceSafe_mapError {ε : Type} {g : ε → Fault}
    (hg : ∀ e id, g e ≠ .undefinedNamespace id) (r : Except ε α) :
    NamespaceSafe (r.mapError g) := by
  cases r with
  | ok v => exact namespaceSafe_ok v
  | error e => exact fun id h => hg e id (Except.error.inj h)

theorem namespaceSafe_load (ns : Namespace) (address : UInt32) :
    NamespaceSafe (ns.load address) := by
  unfold Namespace.load
  cases ns.get? address <;> exact nofun

theorem namespaceSafe_remove (ns : Namespace) (address : UInt32) :
    NamespaceSafe (ns.remove address) := by
  unfold Namespace.remove
  cases ns.contains address <;> exact nofun

theorem namespaceSafe_computed (r : Except ArithmeticError α) : NamespaceSafe (computed r) :=
  namespaceSafe_mapError nofun r

theorem namespaceSafe_parsed (r : Except ReadingError α) :
    NamespaceSafe (r.mapError Fault.ofReading) :=
  namespaceSafe_mapError nofun r

namespace Instruction

variable (i : Instruction) (ns : Namespace) (n : Nat)

theorem namespaceSafe_arg : NamespaceSafe (i.arg n) := by
  unfold arg
  cases i.args[n]? <;> exact nofun

theorem namespaceSafe_address : NamespaceSafe (i.address n) :=
  (i.namespaceSafe_arg n).bind fun _ => namespaceSafe_parsed _

theorem namespaceSafe_value : NamespaceSafe (i.value ns n) :=
  (i.namespaceSafe_address n).bind fun _ => namespaceSafe_load ns _

/-- The cell that an argument names, read as a value of a type. -/
theorem namespaceSafe_typed (reading : Bytes → Except ReadingError α) :
    NamespaceSafe (i.value ns n >>= fun v => typed reading v) :=
  (i.namespaceSafe_value ns n).bind fun _ => namespaceSafe_parsed _

theorem namespaceSafe_uint : NamespaceSafe (i.uint ns n) := i.namespaceSafe_typed ns n _

theorem namespaceSafe_sint : NamespaceSafe (i.sint ns n) := i.namespaceSafe_typed ns n _

theorem namespaceSafe_float : NamespaceSafe (i.float ns n) := i.namespaceSafe_typed ns n _

theorem namespaceSafe_text : NamespaceSafe (i.text ns n) := i.namespaceSafe_typed ns n _

end Instruction

theorem Conversion.namespaceSafe_value (c : Conversion) (i : Instruction) (ns : Namespace) :
    NamespaceSafe (c.value i ns) := by
  cases c with
  | uintToText | uintToFloat => exact (i.namespaceSafe_uint ns 0).return _
  | floatToText => exact (i.namespaceSafe_float ns 0).return _
  | sintToText | sintToFloat => exact (i.namespaceSafe_sint ns 0).return _
  | textToUint | textToFloat | textToSint =>
    exact (i.namespaceSafe_text ns 0).bind fun _ => (namespaceSafe_parsed _).return _
  | floatToUint | floatToSint =>
    exact (i.namespaceSafe_float ns 0).bind fun _ => (namespaceSafe_computed _).return _
  | sintToUint =>
    exact (i.namespaceSafe_sint ns 0).bind fun _ => (namespaceSafe_computed _).return _
  | uintToSint =>
    exact (i.namespaceSafe_uint ns 0).bind fun _ => (namespaceSafe_computed _).return _

namespace DataOp

variable (op : DataOp) (i : Instruction) (ns : Namespace)

theorem namespaceSafe_value : NamespaceSafe (op.value i ns) := by
  have hvalue := i.namespaceSafe_value ns
  have huint := i.namespaceSafe_uint ns
  have hsint := i.namespaceSafe_sint ns
  have hfloat := i.namespaceSafe_float ns
  cases op with
  | store => exact i.namespaceSafe_arg 0
  | copy => exact hvalue 0
  | concat => exact (hvalue 1).bind fun _ => (hvalue 0).return _
  | insert => exact (hvalue 0).bind fun _ => (hvalue 1).bind fun _ => (huint 2).return _
  | keepFront | dropFront => exact (hvalue 0).bind fun _ => (huint 1).return _
  | removeRange => exact (hvalue 0).bind fun _ => (huint 1).bind fun _ => (huint 2).return _
  | length => exact (hvalue 0).bind fun _ => namespaceSafe_computed _
  | not => exact (huint 0).return _
  | slice => exact (hvalue 2).bind fun _ => (huint 0).bind fun _ => (huint 1).return _
  | replicate =>
    exact (hvalue 0).bind fun _ => (huint 1).bind fun _ => namespaceSafe_computed _
  | snapshot | listAddresses => exact namespaceSafe_ok _
  | loadIndirect => exact (huint 0).bind fun _ => namespaceSafe_load ns _
  | storeIndirect => exact hvalue 1
  | reverse => exact (hvalue 0).return _
  | compare => exact (hvalue 0).bind fun _ => (hvalue 1).return _
  | uint op =>
    exact (huint 0).bind fun _ => (huint 1).bind fun _ => (namespaceSafe_computed _).return _
  | sint op =>
    exact (hsint 0).bind fun _ => (hsint 1).bind fun _ => (namespaceSafe_computed _).return _
  | float op => exact (hfloat 0).bind fun _ => (hfloat 1).return _
  | big op => exact (hvalue 0).bind fun _ => (hvalue 1).bind fun _ => namespaceSafe_computed _
  | convert c => exact c.namespaceSafe_value i ns

theorem namespaceSafe_eval : NamespaceSafe (op.eval i (.ok ns)) := by
  have hvalue := op.namespaceSafe_value i ns
  -- All operations but two write to the cell that one of their arguments names.
  have haddress (n : Nat) : NamespaceSafe (do
      let dest ← i.address n
      let ns ← Except.ok ns
      return (dest, ← op.value i ns)) :=
    (i.namespaceSafe_address n).bind fun _ => hvalue.return _
  cases op with
  | storeIndirect => exact (i.namespaceSafe_uint ns 0).bind fun _ => hvalue.return _
  | store => exact (i.namespaceSafe_arg 0).bind fun _ => (i.namespaceSafe_address 1).return _
  | _ => exact haddress _

end DataOp

theorem Condition.namespaceSafe_holds (c : Condition) (i : Instruction) (ns : Namespace) :
    NamespaceSafe (c.holds i ns) := by
  cases c with
  | always => exact namespaceSafe_ok _
  | same | differ | within =>
    exact (i.namespaceSafe_value ns _).bind fun _ => (i.namespaceSafe_value ns _).return _
  | float c =>
    exact (i.namespaceSafe_float ns 1).bind fun _ => (i.namespaceSafe_float ns 2).return _
  | uint c =>
    exact (i.namespaceSafe_uint ns 1).bind fun _ => (i.namespaceSafe_uint ns 2).return _

namespace Action

/-- Whatever the action fails with in the state `s`, it is not that a namespace is undefined. -/
def NamespaceSafeAt (s : Focus) (a : Action α) : Prop :=
  ∀ id t, a s ≠ .error (.fault (.undefinedNamespace id)) t

theorem namespaceSafeAt_pure (v : α) : (pure v : Action α).NamespaceSafeAt s := by
  intro id t h
  cases h

theorem namespaceSafeAt_modify (g : Focus → Focus) :
    (modify g : Action Unit).NamespaceSafeAt s := by
  intro id t h
  cases h

theorem namespaceSafeAt_ofExcept {r : Except Fault α} (hr : NamespaceSafe r) :
    (ofExcept r).NamespaceSafeAt s := by
  cases r with
  | ok v => exact namespaceSafeAt_pure v
  | error f =>
    rintro id t h
    cases h
    exact hr id rfl

theorem NamespaceSafeAt.bind {a : Action α} {k : α → Action β} (ha : a.NamespaceSafeAt s)
    (hk : ∀ v t, a s = .ok v t → (k v).NamespaceSafeAt t) : (a >>= k).NamespaceSafeAt s := by
  intro id t h
  rcases bind_eq_error_iff.1 h with h | ⟨v, u, hv, h⟩
  · exact ha id t h
  · exact hk v u hv id t h

theorem NamespaceSafeAt.return {a : Action α} (ha : a.NamespaceSafeAt s) (f : α → β) :
    (a >>= fun v => pure (f v)).NamespaceSafeAt s :=
  ha.bind fun _ _ _ => namespaceSafeAt_pure _

theorem namespaceSafeAt_parse {r : Except Fault α} {k : α → Action β} (hr : NamespaceSafe r)
    (hk : ∀ v, (k v).NamespaceSafeAt s) : (ofExcept r >>= k).NamespaceSafeAt s := by
  refine (namespaceSafeAt_ofExcept hr).bind fun v t hv => ?_
  rw [(readsOnly_ofExcept r s).eq_of_ok hv]
  exact hk v

section

variable (hs : s.Meets Table.HasActive)
include hs

theorem exists_slot : ∃ slot, s.slot? = some slot := Table.contains_iff.1 hs

theorem namespaceSafeAt_setMemory (ns : Namespace) : (setMemory ns).NamespaceSafeAt s := by
  rcases exists_slot hs with ⟨slot, hslot⟩
  intro id t h
  rw [setMemory_eq, hslot] at h
  cases h

theorem namespaceSafeAt_setCell (address : UInt32) (value : Bytes) :
    (setCell address value).NamespaceSafeAt s := by
  rcases exists_slot hs with ⟨slot, hslot⟩
  intro id t h
  rw [setCell_eq, hslot] at h
  cases h

theorem namespaceSafeAt_reading {f : Namespace → Except Fault α}
    (hf : ∀ ns, NamespaceSafe (f ns)) : (reading f).NamespaceSafeAt s := by
  rcases exists_slot hs with ⟨slot, hslot⟩
  intro id t h
  rw [reading_eq, hslot] at h
  exact namespaceSafeAt_ofExcept (hf slot.memory) id t h

/-- Read the cells, and go on from the same state. -/
theorem namespaceSafeAt_read {f : Namespace → Except Fault α} {k : α → Action β}
    (hf : ∀ ns, NamespaceSafe (f ns)) (hk : ∀ v, (k v).NamespaceSafeAt s) :
    (reading f >>= k).NamespaceSafeAt s := by
  refine (namespaceSafeAt_reading hs hf).bind fun v t hv => ?_
  rw [(readsOnly_reading f s).eq_of_ok hv]
  exact hk v

/-! ## Instructions on cells -/

theorem namespaceSafeAt_data (op : DataOp) (i : Instruction) :
    (data op i).NamespaceSafeAt s := by
  rcases Table.memory_of_contains hs with ⟨ns, hns⟩
  have heval := op.namespaceSafe_eval i ns
  rw [← hns] at heval
  exact namespaceSafeAt_parse (r := op.eval i (s.world.table.memory s.exec.active)) heval
    fun _ => (namespaceSafeAt_setCell hs _ _).return _

theorem namespaceSafeAt_deleteCell (i : Instruction) : (deleteCell i).NamespaceSafeAt s := by
  refine namespaceSafeAt_parse (i.namespaceSafe_address 0) fun address => ?_
  refine namespaceSafeAt_read hs (fun ns => namespaceSafe_remove ns address) fun ns => ?_
  exact (namespaceSafeAt_setMemory hs ns).return _

theorem namespaceSafeAt_clearMemory : clearMemory.NamespaceSafeAt s := by
  rcases exists_slot hs with ⟨slot, hslot⟩
  have hmemory : memory s = .ok slot.memory s := by rw [memory_eq, hslot]
  intro id t h
  rw [clearMemory, bind_of_ok hmemory] at h
  exact (namespaceSafeAt_setMemory hs ∅).return (fun _ => Flow.next) id t h

theorem namespaceSafeAt_restore (i : Instruction) : (restore i).NamespaceSafeAt s := by
  refine namespaceSafeAt_read hs (fun ns => ?_) fun ns => ?_
  · refine (i.namespaceSafe_value ns 0).bind fun _ => ?_
    split
    · exact namespaceSafe_ok _
    · nofun
  · exact (namespaceSafeAt_setMemory hs ns).return _

theorem namespaceSafeAt_halt (i : Instruction) : (halt i).NamespaceSafeAt s := by
  unfold halt
  split
  · exact namespaceSafeAt_pure _
  · refine namespaceSafeAt_read hs (fun ns => i.namespaceSafe_value ns 0) fun _ => ?_
    exact (namespaceSafeAt_modify _).return _

omit hs in
theorem namespaceSafe_target (i : Instruction) (size : Nat) (ns : Namespace) (n : Nat) :
    NamespaceSafe (target i size ns n) := by
  refine (i.namespaceSafe_uint ns n).bind fun position => ?_
  unfold checkTarget
  split <;> exact nofun

omit hs in
theorem namespaceSafe_label (i : Instruction) (p : Program) (n : Nat) :
    NamespaceSafe (label i p n) := by
  refine (i.namespaceSafe_arg n).bind fun name => ?_
  cases p.label? name <;> exact nofun

theorem namespaceSafeAt_jump (c : Condition) (i : Instruction) : (jump c i).NamespaceSafeAt s := by
  refine namespaceSafeAt_reading hs fun ns => (c.namespaceSafe_holds i ns).bind fun holds => ?_
  cases holds with
  | true => exact (namespaceSafe_target i _ ns 0).return _
  | false => exact namespaceSafe_ok _

theorem namespaceSafeAt_branch (c : Condition) (i : Instruction) :
    (branch c i).NamespaceSafeAt s := by
  refine namespaceSafeAt_reading hs fun ns => (c.namespaceSafe_holds i ns).bind fun holds => ?_
  cases holds with
  | true => exact (namespaceSafe_target i _ ns 0).return _
  | false => exact (namespaceSafe_target i _ ns 3).return _

theorem namespaceSafeAt_jumpLabel (c : Condition) (i : Instruction) :
    (jumpLabel c i).NamespaceSafeAt s := by
  refine namespaceSafeAt_read hs (c.namespaceSafe_holds i) fun holds => ?_
  cases holds with
  | true => exact (namespaceSafeAt_ofExcept (namespaceSafe_label i _ 0)).return _
  | false => exact namespaceSafeAt_pure _

theorem namespaceSafeAt_branchLabel (c : Condition) (i : Instruction) :
    (branchLabel c i).NamespaceSafeAt s := by
  refine namespaceSafeAt_read hs (c.namespaceSafe_holds i) fun holds => ?_
  cases holds with
  | true => exact (namespaceSafeAt_ofExcept (namespaceSafe_label i _ 0)).return _
  | false => exact (namespaceSafeAt_ofExcept (namespaceSafe_label i _ 3)).return _

end

end Action

/-- The opcodes on the cells of the active namespace, among them all of arithmetic and all
conversions, and those on the place in the program. -/
def Opcode.OnCells : Opcode → Prop
  | start | nop | label | halt | stopAll | data _ | delete | clearMemory | restore | jump _
  | branch _ | jumpLabel _ | branchLabel _ | setErrorMode _ => True
  | _ => False

/-- Where the active namespace exists, an instruction on cells finds it. -/
theorem Opcode.namespaceSafeAt_run {op : Opcode} (hop : op.OnCells) (hs : s.Meets Table.HasActive)
    (o : Options) (i : Instruction) : (op.run o i).NamespaceSafeAt s := by
  have hatOnce {a : Action Flow} (ha : a.NamespaceSafeAt s) : (Action.atOnce a).NamespaceSafeAt s :=
    ha.return _
  cases op with
  | start | nop | label => exact Action.namespaceSafeAt_pure _
  | stopAll | setErrorMode _ => exact hatOnce ((Action.namespaceSafeAt_modify _).return _)
  | halt => exact hatOnce (Action.namespaceSafeAt_halt hs i)
  | data op => exact hatOnce (Action.namespaceSafeAt_data hs op i)
  | delete => exact hatOnce (Action.namespaceSafeAt_deleteCell hs i)
  | clearMemory => exact hatOnce (Action.namespaceSafeAt_clearMemory hs)
  | restore => exact hatOnce (Action.namespaceSafeAt_restore hs i)
  | jump c => exact hatOnce (Action.namespaceSafeAt_jump hs c i)
  | branch c => exact hatOnce (Action.namespaceSafeAt_branch hs c i)
  | jumpLabel c => exact hatOnce (Action.namespaceSafeAt_jumpLabel hs c i)
  | branchLabel c => exact hatOnce (Action.namespaceSafeAt_branchLabel hs c i)
  | _ => exact hop.elim

/-! ## Runs -/

/-- The state `t` is at a boundary of instructions in the run of an executor from the state `s`, all
of whose instructions are over at once. -/
def Focus.Runs (o : Options) : Focus → Focus → Prop :=
  Relation.ReflTransGen fun s t => Guarded.turn o s = .ok .ready t

/-- What an executor can rely on between two instructions, in the state `s`. -/
structure Focus.KeepsActive (o : Options) (s : Focus) : Prop where
  active : s.world.table.contains s.exec.active = true
  nonempty : s.world.table.keys ≠ []
  -- An instruction on cells finds the cells.
  found : ∀ i t op, s.Dispatches o i t → Opcode.ofCode? i.opcode = some op → op.OnCells →
    ∀ id u, i.run o t ≠ .error (.fault (.undefinedNamespace id)) u
  -- The active namespace cannot be deleted.
  undeletable : ∀ i t slot, s.Dispatches o i t →
    Opcode.ofCode? i.opcode = some .deleteNamespace → t.slot? = some slot →
    i.uint slot.memory 0 = .ok t.exec.active →
    i.run o t = .error (.fault (.cannotDeleteActiveNamespace t.exec.active)) t
  -- Pruning leaves the active namespace and nothing else.
  pruned : ∀ i t, s.Dispatches o i t → Opcode.ofCode? i.opcode = some .pruneNamespaces →
    ∃ u, i.run o t = .ok (.flow .next) u ∧ u.exec = t.exec ∧
      u.world.table.keys = [u.exec.active]

theorem Instruction.run_of_code {op : Opcode} (h : Opcode.ofCode? i.opcode = some op) :
    i.run o = op.run o i := by
  unfold run
  rw [h]

theorem Focus.keepsActive_of_meets (o : Options) (hs : s.Meets Table.HasActive) :
    s.KeepsActive o := by
  have hdispatched {i : Instruction} {t : Focus} (h : s.Dispatches o i t) :
      t.Meets Table.HasActive :=
    lasting_hasActive.meets_of_dispatches hs h
  refine ⟨hs, Table.keys_ne_nil_of_contains hs, ?_, ?_, ?_⟩
  · intro i t op h hop hcells
    rw [Instruction.run_of_code hop]
    exact Opcode.namespaceSafeAt_run hcells (hdispatched h) o i
  · intro i t slot h hop hslot hid
    -- The number that is read is that of the active namespace, and the table refuses it.
    have hread : Action.reading (fun ns => i.uint ns 0) t = .ok t.exec.active t :=
      Action.reading_eq_ok_iff.2 ⟨rfl, slot, hslot, hid⟩
    have hdelete : t.world.table.delete t.exec.active t.exec.active =
        .error (.cannotDeleteActiveNamespace t.exec.active) := if_pos rfl
    have hrun : Action.deleteNamespace i t =
        .error (.fault (.cannotDeleteActiveNamespace t.exec.active)) t := by
      rw [Action.deleteNamespace, bind_of_ok hread, get_bind, hdelete]
      rfl
    rw [Instruction.run_of_code hop]
    exact bind_of_error hrun _
  · intro i t h hop
    rw [Instruction.run_of_code hop]
    exact ⟨_, rfl, rfl, Table.keys_retainOnly (hdispatched h)⟩

theorem Focus.Dispatches.active (h : s.Dispatches o i t) : t.exec.active = s.exec.active :=
  (lasting_active (· = s.exec.active)).meets_of_dispatches rfl h

/-- At every boundary of a run that starts with an active namespace, there is one. -/
theorem Focus.Runs.keepsActive (hs : s.world.table.contains s.exec.active = true)
    (hrun : s.Runs o t) : t.KeepsActive o := by
  refine Focus.keepsActive_of_meets o ?_
  induction hrun with
  | refl => exact hs
  | tail _ hturn ih =>
    have hmaintains := lasting_hasActive.maintains_turn ih fun i u _ hu op hop hleaves =>
      Opcode.maintains_hasActive hop hleaves o hu
    exact hmaintains.of_ok hturn

/-- An executor that creates the namespace 1, switches to it, and deletes all others. -/
def Executor.mover : Executor where
  program := .ofList
    [⟨0, 2, [[0, 0, 0, 1], [0, 0, 0, 0]]⟩, ⟨1, 91, [[0, 0, 0, 0]]⟩, ⟨2, 90, [[0, 0, 0, 0]]⟩,
      ⟨3, 94, []⟩]
  active := 0

theorem Focus.Runs.keepsActive_mover :
    ∃ t, (⟨{}, Executor.mover⟩ : Focus).world.table.contains (0 : UInt32) = true ∧
      Focus.Runs {} ⟨{}, Executor.mover⟩ t ∧ t.exec.ip = 4 ∧ t.world.table.keys = [1] ∧
      t.KeepsActive {} :=
  have hrun : Focus.Runs {} ⟨{}, Executor.mover⟩ _ :=
    .tail (.tail (.tail (.tail .refl rfl) rfl) rfl) rfl
  ⟨_, rfl, hrun, rfl, rfl, hrun.keepsActive rfl⟩

end CellMachine
