import CellMachine.Machine.Turn
import CellMachine.Proofs.Files.Provider
import CellMachine.Proofs.Machine.Failure
import CellMachine.Proofs.Table

/-!
# What instructions change

This module bounds what an instruction changes. Other than those that move or replace the program,
an instruction changes the namespaces, the files, the input, the sink and the stop flag, and of its
executor the output, the error mode, the active namespace, the clock, and which files it uses. A
property of states that does not look at these, or that survives every change of them, is `Passive`.
Every passive property is maintained by hooks and by all the instructions that leave the program
alone, whether they fail or not.

Few instructions take a namespace out of the table or make another one active. A property that only
these can upset is `Stable`, and maintained by all the others. One that calls of handlers can upset
as well, by being put on record, is only `Steady`.
-/

namespace CellMachine

open Stateful

/-- A property that a state cannot lose by what most instructions change. -/
structure Passive (o : Options) (I : Focus → Prop) : Prop where
  table {s : Focus} (table : Table) : I s → I { s with world := { s.world with table } }
  storage {s : Focus} {p : Provider} {t : Storage} : I s → Action.provider s = .ok p s →
    t.Keeps o.superuser p → I (s.withStorage t)
  input {s : Focus} (input : Input) : I s → I { s with world := { s.world with input } }
  sink {s : Focus} (sink : Option Sink) : I s → I { s with world := { s.world with sink } }
  stopped {s : Focus} : I s → I { s with world := { s.world with stopped := true } }
  binds {s : Focus} (binds : Nat) : I s → I { s with world := { s.world with binds } }
  notes {s : Focus} (notes : OrderedMap String Bytes) : I s →
    I { s with world := { s.world with notes } }
  calls {s : Focus} (calls : List HookCall) : I s → I { s with world := { s.world with calls } }
  output {s : Focus} (output : Bytes) : I s → I { s with exec := { s.exec with output } }
  mode {s : Focus} (mode : ErrorMode) : I s → I { s with exec := { s.exec with mode } }
  active {s : Focus} (active : UInt32) : I s → I { s with exec := { s.exec with active } }
  files {s : Focus} (usesBundle : Bool) : I s → I { s with exec := { s.exec with usesBundle } }
  clock {s : Focus} (clock : Nat) : I s → I { s with exec := { s.exec with clock } }

/-- The parts of a state that most instructions leave alone. -/
structure Fixed where
  program : Program
  ip : Nat
  steps : Nat
  arrivals : List Executor

def Focus.fixed (s : Focus) : Fixed := ⟨s.exec.program, s.exec.ip, s.exec.steps, s.world.arrivals⟩

/-- An executor without the parts that instructions change. -/
def Executor.bare (e : Executor) : Executor :=
  { e with output := [], mode := default, active := 0, usesBundle := false, clock := 0 }

/-- A property that a state cannot lose by what most instructions change, as long as every namespace
stays in the table, the active one stays active, and the stop flag and the record of calls are left
alone. -/
structure Steady (o : Options) (I : Focus → Prop) : Prop where
  table {s : Focus} {table : Table} : I s →
    (∀ id, s.world.table.contains id = true → table.contains id = true) →
      I { s with world := { s.world with table } }
  storage {s : Focus} {p : Provider} {t : Storage} : I s → Action.provider s = .ok p s →
    t.Keeps o.superuser p → I (s.withStorage t)
  input {s : Focus} (input : Input) : I s → I { s with world := { s.world with input } }
  sink {s : Focus} (sink : Option Sink) : I s → I { s with world := { s.world with sink } }
  binds {s : Focus} (binds : Nat) : I s → I { s with world := { s.world with binds } }
  notes {s : Focus} (notes : OrderedMap String Bytes) : I s →
    I { s with world := { s.world with notes } }
  output {s : Focus} (output : Bytes) : I s → I { s with exec := { s.exec with output } }
  mode {s : Focus} (mode : ErrorMode) : I s → I { s with exec := { s.exec with mode } }
  files {s : Focus} (usesBundle : Bool) : I s → I { s with exec := { s.exec with usesBundle } }
  clock {s : Focus} (clock : Nat) : I s → I { s with exec := { s.exec with clock } }

/-- A steady property that is not lost either when calls of handlers are put on record. -/
structure Stable (o : Options) (I : Focus → Prop) : Prop extends Steady o I where
  calls {s : Focus} (calls : List HookCall) : I s → I { s with world := { s.world with calls } }

/-- The record of calls survives everything else. -/
theorem steady_calls (o : Options) (calls : List HookCall) :
    Steady o fun s => s.world.calls = calls where
  storage {s p t} hs _ _ := by
    unfold Focus.withStorage
    cases s.exec.usesBundle <;> exact hs
  table hs _ := hs
  input _ hs := hs
  sink _ hs := hs
  binds _ hs := hs
  notes _ hs := hs
  output _ hs := hs
  mode _ hs := hs
  files _ hs := hs
  clock _ hs := hs

theorem Passive.stable {o : Options} {I : Focus → Prop} (h : Passive o I) : Stable o I where
  table hs _ := h.table _ hs
  storage := h.storage
  input := h.input
  sink := h.sink
  binds := h.binds
  notes := h.notes
  calls := h.calls
  output := h.output
  mode := h.mode
  files := h.files
  clock := h.clock

def Opcode.EditsProgram : Opcode → Prop
  | spawn _ _ | loadProgram => True
  | _ => False

/-- The opcodes after which a namespace may be gone, or no longer the active one. -/
def Opcode.LeavesNamespace : Opcode → Prop
  | switchNamespace | deleteNamespace | pruneNamespaces => True
  | _ => False

/-- A jump goes to a position of the program, or to one that a label names. -/
def Flow.Lands (f : Flow) (p : Program) : Prop :=
  match f with
  | .jump n => n < p.size ∨ ∃ name, p.label? name = some n
  | _ => True

/-- What an instruction that leaves the program alone comes to in its last state. An executor that
is waited for starts on a program of its own. -/
def Effect.Plain (effect : Effect) (t : Focus) : Prop :=
  match effect with
  | .flow f => f.Lands t.exec.program
  | .call callee _ => ∃ is active, callee = Action.offspring t.exec (.ofList is) active
  | .join _ => False

/-- The property holds on, and if the action gives a jump, it lands. -/
def Action.Abides (I : Focus → Prop) (s : Focus) (a : Action Flow) : Prop :=
  Ensures I s a fun f t => I t ∧ f.Lands t.exec.program

namespace Passive

variable {o : Options} {I : Focus → Prop} {s : Focus}

theorem trivially (o : Options) : Passive o fun _ => True := by
  constructor <;> intros <;> trivial

/-- What is said about an executor without those parts, and about the executors that are to have
threads, is passive, whatever it is. -/
theorem ofBare (o : Options) (J : Executor → List Executor → Prop) :
    Passive o fun s => J s.exec.bare s.world.arrivals where
  storage {s p t} hs _ _ := by
    unfold Focus.withStorage
    cases s.exec.usesBundle <;> exact hs
  table _ hs := hs
  input _ hs := hs
  sink _ hs := hs
  stopped hs := hs
  binds _ hs := hs
  notes _ hs := hs
  calls _ hs := hs
  output _ hs := hs
  mode _ hs := hs
  active _ hs := hs
  files _ hs := hs
  clock _ hs := hs

theorem ofFixed (o : Options) (J : Fixed → Prop) : Passive o fun s => J s.fixed :=
  ofBare o fun e arrivals => J ⟨e.program, e.ip, e.steps, arrivals⟩

theorem ofPlace (o : Options) (J : Program → Nat → List Executor → Prop) :
    Passive o fun s => J s.exec.program s.exec.ip s.world.arrivals :=
  ofFixed o fun x => J x.program x.ip x.arrivals

end Passive

namespace Steady

variable {α β : Type} {o : Options} {I : Focus → Prop} {s : Focus}

/-! ## Reading -/

/-- What only reads leads to the same state. -/
theorem ensures_of_readsOnly {a : Action α} (ha : a.ReadsOnly) (hs : I s) :
    Ensures I s a fun v t => t = s ∧ a s = .ok v s := by
  rcases ha s with ⟨v, h⟩ | ⟨e, h⟩
  · exact ensures_of_ok h ⟨rfl, h⟩
  · exact ensures_of_error h hs

/-- Read first, and go on from the same state. -/
theorem read {a : Action α} {k : α → Action β} {Q : β → Focus → Prop} (ha : a.ReadsOnly) (hs : I s)
    (hk : ∀ v, a s = .ok v s → Ensures I s (k v) Q) : Ensures I s (a >>= k) Q := by
  refine (ensures_of_readsOnly ha hs).bind ?_
  rintro v t ⟨rfl, hv⟩
  exact hk v hv

theorem parse {r : Except Fault α} {k : α → Action β} {Q : β → Focus → Prop} (hs : I s)
    (hk : ∀ v, r = .ok v → Ensures I s (k v) Q) : Ensures I s (Action.ofExcept r >>= k) Q := by
  refine read (Action.readsOnly_ofExcept r) hs ?_
  intro v hv
  exact hk v (Action.ofExcept_eq_ok_iff.1 hv).1

theorem reading {f : Namespace → Except Fault α} {k : α → Action β} {Q : β → Focus → Prop}
    (hs : I s) (hk : ∀ v, Ensures I s (k v) Q) : Ensures I s (Action.reading f >>= k) Q :=
  read (Action.readsOnly_reading f) hs fun v _ => hk v

/-! ## Changing -/

variable (hI : Steady o I) (hs : I s)
include hI hs

theorem maintains_setTable {t : Table}
    (ht : ∀ id, s.world.table.contains id = true → t.contains id = true) :
    Maintains I s (Action.setTable t) :=
  ensures_modify (hI.table hs ht)

theorem maintains_setMemory (ns : Namespace) : Maintains I s (Action.setMemory ns) :=
  ensures_get (parse hs fun _ ht =>
    hI.maintains_setTable hs fun _ => Table.contains_of_setMemory ht)

theorem maintains_setCell (address : UInt32) (value : Bytes) :
    Maintains I s (Action.setCell address value) :=
  read Action.readsOnly_memory hs fun _ _ => hI.maintains_setMemory hs _

theorem maintains_emit (bytes : Bytes) : Maintains I s (Action.emit bytes) :=
  ensures_modify (hI.output _ hs)

theorem maintains_guardedPrint (text : String) : Maintains I s (Guarded.print text) := by
  refine ensures_get ?_
  cases s.world.sink with
  | none => exact ensures_pure hs
  | some k =>
    dsimp only
    cases k.write text with
    | ok k' => exact ensures_set (hI.sink (some k') hs)
    | error p => exact ensures_throw hs p

theorem maintains_print (text : String) : Maintains I s (Action.print text) := by
  have hprint := hI.maintains_guardedPrint hs text
  cases h : Guarded.print text s with
  | ok v t =>
    refine ensures_of_ok (v := v) (t := t) ?_ (hprint.of_ok h)
    rw [Action.print, h]
  | error p t =>
    refine ensures_of_error (e := .panic p) (t := t) ?_ (hprint.of_error h)
    rw [Action.print, h]

theorem maintains_onInput (a : InputAction α) : Maintains I s (Action.onInput a) := by
  refine ensures_get ?_
  cases a.run s.world.input with
  | ok v input => exact hI.input input hs
  | error e input => exact hI.input input hs

theorem maintains_onFiles {a : FileAction α} (ha : ∀ t, Provider.Keeping o.superuser t a) :
    Maintains I s (Action.onFiles a) := by
  rcases Action.readsOnly_provider s with ⟨p, hp⟩ | ⟨e, he⟩
  · have hrun := Action.onFiles_of_provider (a := a) hp
    have hkeeps := ha ⟨p, s.world.host⟩ p (Provider.keeps_refl _ ⟨p, s.world.host⟩)
    cases h : a ⟨p, s.world.host⟩ with
    | ok v t =>
      rw [h] at hrun
      exact ensures_of_ok hrun (hI.storage hs hp (hkeeps.of_ok h))
    | error e t =>
      rw [h] at hrun
      exact ensures_of_error hrun (hI.storage hs hp (hkeeps.of_error h))
  · exact ensures_of_error (bind_of_error he _) hs

/-! ## Instructions within an executor -/

omit hI hs in
theorem abides_of_maintains {a : Action α} (h : Maintains I s a) {f : Flow}
    (hf : ∀ p, f.Lands p) : Action.Abides I s (a >>= fun _ => pure f) :=
  h.return fun t ht => ⟨ht, hf t.exec.program⟩

theorem abides_setCell (address : UInt32) (value : Bytes) :
    Action.Abides I s (do Action.setCell address value; return .next) :=
  abides_of_maintains (hI.maintains_setCell hs address value) fun _ => trivial

theorem abides_setMemory (ns : Namespace) :
    Action.Abides I s (do Action.setMemory ns; return .next) :=
  abides_of_maintains (hI.maintains_setMemory hs ns) fun _ => trivial

theorem abides_setTable {t : Table}
    (ht : ∀ id, s.world.table.contains id = true → t.contains id = true) :
    Action.Abides I s (do Action.setTable t; return .next) :=
  abides_of_maintains (hI.maintains_setTable hs ht) fun _ => trivial

theorem abides_data (op : DataOp) (i : Instruction) : Action.Abides I s (Action.data op i) :=
  ensures_get (parse hs fun _ _ => hI.abides_setCell hs _ _)

theorem abides_deleteCell (i : Instruction) : Action.Abides I s (Action.deleteCell i) :=
  parse hs fun _ _ => reading hs fun _ => hI.abides_setMemory hs _

theorem abides_clearMemory : Action.Abides I s Action.clearMemory :=
  read Action.readsOnly_memory hs fun _ _ => hI.abides_setMemory hs _

theorem abides_restore (i : Instruction) : Action.Abides I s (Action.restore i) :=
  reading hs fun _ => hI.abides_setMemory hs _

omit hI in
/-- What is computed from the cells alone is a jump that lands. -/
theorem abides_reading {f : Namespace → Except Fault Flow}
    (hf : ∀ ns flow, f ns = .ok flow → flow.Lands s.exec.program) :
    Action.Abides I s (Action.reading f) := by
  refine (ensures_of_readsOnly (Action.readsOnly_reading f) hs).imp ?_
  rintro flow t ⟨rfl, hrun⟩
  rcases Action.reading_eq_ok_iff.1 hrun with ⟨-, slot, -, hflow⟩
  exact ⟨hs, hf slot.memory flow hflow⟩

omit hI hs in
theorem lt_of_target {i : Instruction} {size n k : Nat} {ns : Namespace}
    (h : Action.target i size ns n = .ok k) : k < size := by
  unfold Action.target Action.checkTarget at h
  cases hn : i.uint ns n with
  | error e =>
    rw [hn] at h
    cases h
  | ok v =>
    rw [hn] at h
    by_cases hlt : v.toNat < size
    · have hk : k = v.toNat := by simpa [hlt, bind, Except.bind, eq_comm] using h
      rw [hk]
      exact hlt
    · simp [hlt, bind, Except.bind] at h

omit hI hs in
theorem lands_target {i : Instruction} {p : Program} {n : Nat} {ns : Namespace} {f : Flow}
    (h : (do return .jump (← Action.target i p.size ns n) : Except Fault Flow) = .ok f) :
    f.Lands p := by
  cases hn : Action.target i p.size ns n with
  | error e =>
    rw [hn] at h
    cases h
  | ok k =>
    rw [hn] at h
    cases h
    exact .inl (lt_of_target hn)

omit hI in
theorem abides_jump (c : Condition) (i : Instruction) : Action.Abides I s (Action.jump c i) := by
  refine ensures_get (abides_reading hs ?_)
  intro ns f hf
  cases hc : c.holds i ns with
  | error e =>
    rw [hc] at hf
    cases hf
  | ok holds =>
    rw [hc] at hf
    cases holds with
    | true => exact lands_target hf
    | false =>
      cases hf
      trivial

omit hI in
theorem abides_branch (c : Condition) (i : Instruction) :
    Action.Abides I s (Action.branch c i) := by
  refine ensures_get (abides_reading hs ?_)
  intro ns f hf
  cases hc : c.holds i ns with
  | error e =>
    rw [hc] at hf
    cases hf
  | ok holds =>
    rw [hc] at hf
    cases holds <;> exact lands_target hf

omit hI in
theorem abides_label (i : Instruction) (n : Nat) :
    Action.Abides I s (do return .jump (← Action.ofExcept (Action.label i s.exec.program n))) := by
  refine parse hs ?_
  intro k hk
  refine ensures_pure ⟨hs, .inr ?_⟩
  unfold Action.label at hk
  cases hname : i.arg n with
  | error e =>
    rw [hname] at hk
    cases hk
  | ok name =>
    rw [hname] at hk
    refine ⟨name, ?_⟩
    cases hlabel : s.exec.program.label? name with
    | none => simp [hlabel, bind, Except.bind, throw, throwThe, MonadExceptOf.throw] at hk
    | some k' =>
      have hk' : k' = k := by simpa [hlabel, bind, Except.bind, pure, Except.pure] using hk
      rw [hk']

omit hI in
theorem abides_jumpLabel (c : Condition) (i : Instruction) :
    Action.Abides I s (Action.jumpLabel c i) := by
  refine ensures_get (reading hs ?_)
  intro holds
  cases holds with
  | true => exact abides_label hs i 0
  | false => exact ensures_pure ⟨hs, trivial⟩

omit hI in
theorem abides_branchLabel (c : Condition) (i : Instruction) :
    Action.Abides I s (Action.branchLabel c i) := by
  refine ensures_get (reading hs ?_)
  intro holds
  cases holds with
  | true => exact abides_label hs i 0
  | false => exact abides_label hs i 3

theorem abides_halt (i : Instruction) : Action.Abides I s (Action.halt i) := by
  unfold Action.halt
  split
  · exact ensures_pure ⟨hs, trivial⟩
  · exact reading hs fun _ => abides_of_maintains (hI.maintains_emit hs _) fun _ => trivial

theorem abides_setErrorMode (m : ErrorMode) : Action.Abides I s (Action.setErrorMode m) :=
  ⟨hI.mode m hs, trivial⟩

/-! ## Namespaces -/

theorem abides_createNamespace (i : Instruction) :
    Action.Abides I s (Action.createNamespace i) :=
  reading hs fun _ => ensures_get (hI.abides_setTable hs fun _ => Table.contains_create)

theorem abides_listNamespaces (i : Instruction) :
    Action.Abides I s (Action.listNamespaces i) :=
  parse hs fun _ _ => ensures_get (hI.abides_setCell hs _ _)

theorem abides_copyToNamespace (i : Instruction) :
    Action.Abides I s (Action.copyToNamespace i) := by
  refine parse hs fun _ _ => reading hs fun _ => ensures_get ?_
  refine parse hs fun _ _ => parse hs fun _ ht => ?_
  exact hI.abides_setTable hs fun _ => Table.contains_of_setMemory ht

/-! ## Input, output and files -/

theorem abides_readLine (i : Instruction) : Action.Abides I s (Action.readLine i) :=
  parse hs fun _ _ => (hI.maintains_onInput hs _).bind fun _ _ ht => hI.abides_setCell ht _ _

theorem abides_readChars (i : Instruction) : Action.Abides I s (Action.readChars i) := by
  refine parse hs fun _ _ => reading hs fun _ => ?_
  exact (hI.maintains_onInput hs _).bind fun _ _ ht => hI.abides_setCell ht _ _

theorem abides_runtimeArg (o' : Options) (i : Instruction) :
    Action.Abides I s (Action.runtimeArg o' i) := by
  refine parse hs fun _ _ => reading hs fun n => ?_
  cases o'.args[n.toNat]? with
  | some arg => exact hI.abides_setCell hs _ _
  | none => exact ensures_throw hs _

theorem abides_runtimeArgCount (o' : Options) (i : Instruction) :
    Action.Abides I s (Action.runtimeArgCount o' i) :=
  parse hs fun _ _ => hI.abides_setCell hs _ _

theorem abides_dumpMemory : Action.Abides I s Action.dumpMemory :=
  read Action.readsOnly_memory hs fun _ _ =>
    abides_of_maintains (hI.maintains_print hs _) fun _ => trivial

theorem abides_announce (form : UInt32) (v : Bytes) :
    Action.Abides I s (Action.announce form v) := by
  refine ensures_get ?_
  cases s.world.sink.isSome with
  | false => exact ensures_pure ⟨hs, trivial⟩
  | true =>
    refine parse hs fun text _ => ?_
    cases text with
    | some text => exact abides_of_maintains (hI.maintains_print hs text) fun _ => trivial
    | none => exact ensures_pure ⟨hs, trivial⟩

theorem abides_write (i : Instruction) : Action.Abides I s (Action.write i) := by
  rw [Action.write_eq]
  refine parse hs fun form _ => reading hs fun v => ?_
  split
  · exact (hI.maintains_emit hs v).bind fun _ _ ht => hI.abides_announce ht form v
  · exact hI.abides_announce hs form v

theorem abides_readFile (i : Instruction) : Action.Abides I s (Action.readFile i) := by
  refine parse hs fun _ _ => reading hs fun name => ?_
  refine (hI.maintains_onFiles hs fun _ => Provider.keeping_read name).bind fun _ _ ht => ?_
  exact hI.abides_setCell ht _ _

theorem abides_writeFile (i : Instruction) : Action.Abides I s (Action.writeFile o i) :=
  reading hs fun ⟨name, v⟩ =>
    abides_of_maintains (hI.maintains_onFiles hs fun _ => Provider.keeping_write name v)
      fun _ => trivial

theorem abides_deleteFile (i : Instruction) : Action.Abides I s (Action.deleteFile o i) :=
  reading hs fun name =>
    abides_of_maintains (hI.maintains_onFiles hs fun _ => Provider.keeping_delete name)
      fun _ => trivial

theorem abides_listFiles (i : Instruction) : Action.Abides I s (Action.listFiles i) := by
  refine parse hs fun _ _ => ?_
  refine (hI.maintains_onFiles hs fun _ => Provider.keeping_list).bind fun _ _ ht => ?_
  exact hI.abides_setCell ht _ _

theorem abides_runCommand (i : Instruction) : Action.Abides I s (Action.runCommand o i) := by
  refine parse hs fun _ _ => reading hs fun line => ?_
  refine (hI.maintains_onFiles hs fun _ => Provider.keeping_runCommand line).bind fun _ _ ht => ?_
  exact hI.abides_setCell ht _ _

theorem abides_useFiles (bundle : Bool) : Action.Abides I s (Action.useFiles bundle) := by
  refine ensures_get ?_
  split
  · exact ensures_throw hs _
  · exact ⟨hI.files bundle hs, trivial⟩

/-! ## The program, the output and the time -/

theorem abides_dumpProgram (i : Instruction) : Action.Abides I s (Action.dumpProgram i) :=
  parse hs fun _ _ => ensures_get (hI.abides_setCell hs _ _)

theorem abides_getOutput (i : Instruction) : Action.Abides I s (Action.getOutput i) :=
  parse hs fun _ _ => ensures_get (hI.abides_setCell hs _ _)

theorem abides_setOutput (i : Instruction) : Action.Abides I s (Action.setOutput i) :=
  reading hs fun v => ⟨hI.output v hs, trivial⟩

theorem abides_epochTime (o' : Options) (i : Instruction) :
    Action.Abides I s (Action.epochTime o' i) :=
  parse hs fun _ _ => hI.abides_setCell hs _ _

theorem abides_localTime (o' : Options) (i : Instruction) :
    Action.Abides I s (Action.localTime o' i) :=
  parse hs fun _ _ => hI.abides_setCell hs _ _

theorem abides_sleep (i : Instruction) : Action.Abides I s (Action.sleep i) := by
  refine reading hs fun seconds => ?_
  cases Action.nanoseconds seconds with
  | ok n => exact ⟨hI.clock _ hs, trivial⟩
  | error e => exact ensures_throw hs _

theorem abides_compileSource (i : Instruction) : Action.Abides I s (Action.compileSource i) := by
  refine parse hs fun _ _ => reading hs fun source => ?_
  refine (hI.maintains_setCell hs _ _).bind fun _ t ht => ?_
  cases (Source.compile source).error with
  | some e => exact ensures_throw ht _
  | none => exact ensures_pure ⟨ht, trivial⟩

/-! ## Extensions -/

theorem abides_bindExtension (i : Instruction) :
    Action.Abides I s (Action.bindExtension o i) := by
  refine reading hs fun name => ?_
  refine read (Action.readsOnly_resolveExtension o name) hs fun h _ => ensures_get ?_
  refine parse hs fun _ ht => ?_
  refine (hI.maintains_setTable hs fun _ => Table.contains_of_bind ht).bind fun _ t ht => ?_
  exact abides_of_maintains (ensures_modify (hI.binds _ ht)) fun _ => trivial

theorem abides_unbindExtension : Action.Abides I s Action.unbindExtension :=
  ensures_get (hI.abides_setTable hs fun _ => Table.contains_unbind)

omit hI hs in
theorem maintains_answer {a : Action α} (h : Maintains I s a) : Maintains I s (Act.answer a) := by
  cases ha : a s with
  | ok v t =>
    refine ensures_of_ok (v := .ok v) (t := t) ?_ (h.of_ok ha)
    rw [Act.answer, ha]
  | error e t =>
    have ht := h.of_error ha
    cases e with
    | fault f =>
      refine ensures_of_ok (v := .error f) (t := t) ?_ ht
      rw [Act.answer, ha]
    | panic p =>
      refine ensures_of_error (e := .panic p) (t := t) ?_ ht
      rw [Act.answer, ha]

theorem maintains_perform (act : Act α) : Maintains I s act.perform := by
  -- Every request of a handler is one that instructions make as well.
  induction act generalizing s with
  | done a => exact ensures_pure hs
  | refuse message => exact ensures_throw hs _
  | panic p => exact ensures_throw hs _
  | read address next ih =>
    have hread : Maintains I s (Action.reading fun ns => ns.load address) :=
      (ensures_of_readsOnly (Action.readsOnly_reading _) hs).imp fun _ _ h => h.1 ▸ hs
    exact (maintains_answer hread).bind fun r t ht => ih r ht
  | write address value next ih =>
    have hwrite := hI.maintains_setCell hs address value
    exact (maintains_answer hwrite).bind fun r t ht => ih r ht
  | delete address next ih =>
    have hdelete : Maintains I s
        (do Action.setMemory (← Action.reading fun ns => ns.remove address)) :=
      reading hs fun ns => hI.maintains_setMemory hs ns
    exact (maintains_answer hdelete).bind fun r t ht => ih r ht
  | emit bytes next ih => exact (hI.maintains_emit hs bytes).bind fun _ t ht => ih ht
  | print text next ih => exact (hI.maintains_print hs text).bind fun _ t ht => ih ht
  | lookUp name next ih => exact ensures_get (ih _ hs)
  | note name value next ih => exact (ensures_modify (hI.notes _ hs)).bind fun _ t ht => ih ht

/-! ## Programs in place -/

omit hI in
theorem ensures_run (binary : Bytes) (active : UInt32) (r : Reception) :
    Ensures I s (Action.run binary active r) fun effect t => I t ∧ effect.Plain t := by
  refine parse hs fun p hp => ensures_get (ensures_pure ⟨hs, ?_⟩)
  cases his : Instruction.decodeAll binary with
  | error e =>
    rw [Program.decode, his] at hp
    cases hp
  | ok is =>
    rw [Program.decode, his] at hp
    cases hp
    exact ⟨is, active, rfl⟩

theorem ensures_importModule (i : Instruction) :
    Ensures I s (Action.importModule o i) fun effect t => I t ∧ effect.Plain t := by
  refine reading hs fun ⟨name, id⟩ => ensures_get ?_
  split
  · refine read (Action.readsOnly_checkRestricted o _ _) hs fun _ _ => ?_
    refine (hI.maintains_onFiles hs fun _ => Provider.keeping_read name).bind fun _ _ ht => ?_
    exact ensures_run ht _ _ _
  · exact ensures_throw hs _

omit hI in
theorem ensures_runSource (i : Instruction) :
    Ensures I s (Action.runSource i) fun effect t => I t ∧ effect.Plain t :=
  reading hs fun _ => ensures_get (ensures_run hs _ _ _)

omit hI in
theorem ensures_runBinary (i : Instruction) :
    Ensures I s (Action.runBinary i) fun effect t => I t ∧ effect.Plain t :=
  reading hs fun _ => ensures_get (ensures_run hs _ _ _)

/-! ## Dispatch -/

omit hI hs in
theorem ensures_atOnce {a : Action Flow} (h : Action.Abides I s a) :
    Ensures I s (Action.atOnce a) fun effect t => I t ∧ effect.Plain t :=
  h.bind fun _ _ hf => ensures_pure hf

/-- A native instruction that leaves the program, the namespaces and the stop flag alone maintains
every stable property. -/
theorem ensures_native (op : Opcode) (i : Instruction) (hprogram : ¬op.EditsProgram)
    (hnamespace : ¬op.LeavesNamespace) (hflag : op ≠ .stopAll) :
    Ensures I s (op.run o i) fun effect t => I t ∧ effect.Plain t := by
  cases op with
  | start | nop | label => exact ensures_pure ⟨hs, trivial⟩
  | halt => exact ensures_atOnce (hI.abides_halt hs i)
  | stopAll => exact absurd rfl hflag
  | data op => exact ensures_atOnce (hI.abides_data hs op i)
  | delete => exact ensures_atOnce (hI.abides_deleteCell hs i)
  | clearMemory => exact ensures_atOnce (hI.abides_clearMemory hs)
  | restore => exact ensures_atOnce (hI.abides_restore hs i)
  | jump c => exact ensures_atOnce (abides_jump hs c i)
  | branch c => exact ensures_atOnce (abides_branch hs c i)
  | jumpLabel c => exact ensures_atOnce (abides_jumpLabel hs c i)
  | branchLabel c => exact ensures_atOnce (abides_branchLabel hs c i)
  | setErrorMode m => exact ensures_atOnce (hI.abides_setErrorMode hs m)
  | readLine => exact ensures_atOnce (hI.abides_readLine hs i)
  | readChars => exact ensures_atOnce (hI.abides_readChars hs i)
  | runtimeArg => exact ensures_atOnce (hI.abides_runtimeArg hs o i)
  | runtimeArgCount => exact ensures_atOnce (hI.abides_runtimeArgCount hs o i)
  | dumpMemory => exact ensures_atOnce (hI.abides_dumpMemory hs)
  | write => exact ensures_atOnce (hI.abides_write hs i)
  | readFile => exact ensures_atOnce (hI.abides_readFile hs i)
  | writeFile => exact ensures_atOnce (hI.abides_writeFile hs i)
  | deleteFile => exact ensures_atOnce (hI.abides_deleteFile hs i)
  | listFiles => exact ensures_atOnce (hI.abides_listFiles hs i)
  | runCommand => exact ensures_atOnce (hI.abides_runCommand hs i)
  | dumpProgram => exact ensures_atOnce (hI.abides_dumpProgram hs i)
  | getOutput => exact ensures_atOnce (hI.abides_getOutput hs i)
  | setOutput => exact ensures_atOnce (hI.abides_setOutput hs i)
  | epochTime => exact ensures_atOnce (hI.abides_epochTime hs o i)
  | localTime => exact ensures_atOnce (hI.abides_localTime hs o i)
  | sleep => exact ensures_atOnce (hI.abides_sleep hs i)
  | useBundleFiles => exact ensures_atOnce (hI.abides_useFiles hs true)
  | usePrimaryFiles => exact ensures_atOnce (hI.abides_useFiles hs false)
  | createNamespace => exact ensures_atOnce (hI.abides_createNamespace hs i)
  | listNamespaces => exact ensures_atOnce (hI.abides_listNamespaces hs i)
  | copyToNamespace => exact ensures_atOnce (hI.abides_copyToNamespace hs i)
  | spawn _ _ | loadProgram => exact absurd trivial hprogram
  | switchNamespace | deleteNamespace | pruneNamespaces => exact absurd trivial hnamespace
  | importModule => exact hI.ensures_importModule hs i
  | runSource => exact ensures_runSource hs i
  | compileSource => exact ensures_atOnce (hI.abides_compileSource hs i)
  | runBinary => exact ensures_runBinary hs i
  | bindExtension => exact ensures_atOnce (hI.abides_bindExtension hs i)
  | unbindExtension => exact ensures_atOnce (hI.abides_unbindExtension hs)

end Steady

/-! ## Calls -/

namespace Stable

variable {o : Options} {I : Focus → Prop} {s : Focus} (hI : Stable o I) (hs : I s)
include hI hs

theorem maintains_call (h : Handler) (hook : Hook) (i : Instruction) :
    Maintains I s (h.call hook i) := by
  have hperform := hI.maintains_perform hs (h.hook hook (i.call s))
  cases hrun : (h.hook hook (i.call s)).perform s with
  | ok v t => exact ensures_of_ok (h.call_of_ok hrun) (hI.calls _ (hperform.of_ok hrun))
  | error e t => exact ensures_of_error (h.call_of_error hrun) (hI.calls _ (hperform.of_error hrun))

omit hI in
theorem maintains_handler? : Maintains I s Action.handler? :=
  ensures_get (ensures_pure hs)

theorem maintains_callHook (hook : Hook) (i : Instruction) :
    Maintains I s (Action.callHook hook i) := by
  refine (maintains_handler? hs).bind fun handler t ht => ?_
  cases handler with
  | some h => exact hI.maintains_call ht h hook i
  | none => exact ensures_pure ht

theorem abides_callExtension (i : Instruction) :
    Action.Abides I s (Action.callExtension i) := by
  refine (maintains_handler? hs).bind fun handler t ht => ?_
  cases handler with
  | none => exact ensures_throw ht _
  | some h =>
    cases hclaims : h.claims i.opcode with
    | true =>
      simp only [hclaims, if_true]
      exact Steady.abides_of_maintains (hI.maintains_call ht h .handle i) fun _ => trivial
    | false =>
      simp only [hclaims, Bool.false_eq_true, if_false]
      exact ensures_throw ht _

/-- What an instruction ensures follows from what its opcode does to the program, to the namespaces
and to the stop flag, and from the stable properties for all other opcodes. -/
theorem ensures_instruction {P : Effect → Focus → Prop} (i : Instruction)
    (hplain : ∀ effect t, I t → effect.Plain t → P effect t)
    (hprogram : ∀ op : Opcode, Opcode.ofCode? i.opcode = some op → op.EditsProgram →
      Ensures I s (op.run o i) P)
    (hnamespace : ∀ op : Opcode, Opcode.ofCode? i.opcode = some op → op.LeavesNamespace →
      Ensures I s (op.run o i) P)
    (hflag : Opcode.ofCode? i.opcode = some .stopAll → Ensures I s (Opcode.stopAll.run o i) P) :
    Ensures I s (i.run o) P := by
  unfold Instruction.run
  cases hop : Opcode.ofCode? i.opcode with
  | none =>
    refine (Steady.ensures_atOnce (hI.abides_callExtension hs i)).imp ?_
    exact fun e t h => hplain e t h.1 h.2
  | some op =>
    by_cases hedits : op.EditsProgram
    · exact hprogram op hop hedits
    · by_cases hleaves : op.LeavesNamespace
      · exact hnamespace op hop hleaves
      · by_cases hstops : op = .stopAll
        · subst hstops
          exact hflag hop
        · have hnative := hI.ensures_native hs op i hedits hleaves hstops
          exact hnative.imp fun e t h => hplain e t h.1 h.2

end Stable

/-! ## Instructions that change the program -/

namespace Opcode

variable {o : Options} {s : Focus} {i : Instruction} {I : Focus → Prop} {P : Effect → Focus → Prop}

/-- What a spawn ensures, it ensures for the positions that are granted, if the property also
survives the loss of a part that is not. -/
theorem ensures_spawn {byLabel joined : Bool} (hs : I s)
    (hlost : ∀ first past, s.Refuses i byLabel first past → I (s.bereft first past))
    (hP : ∀ first past, s.Grants i byLabel first past →
      P (s.exec.parting joined first past) (s.parted joined first past)) :
    Ensures I s ((spawn byLabel joined).run o i) P := by
  have hcases := spawn_cases o i byLabel joined s
  generalize hrun : (spawn byLabel joined).run o i s = r at hcases
  cases hcases with
  | granted hgrants => exact ensures_of_ok hrun (hP _ _ hgrants)
  | refused hcuts hrefusal =>
    exact ensures_of_error hrun (hlost _ _ ⟨hcuts, by simp [hrefusal]⟩)
  | failed => exact ensures_of_error hrun hs

/-- A program that is loaded is built from its instructions, and has the position to go to. -/
theorem ensures_loadProgram (hs : I s)
    (hP : ∀ is k, k < is.length →
      P (.flow (.jump k)) { s with exec := { s.exec with program := .ofList is } }) :
    Ensures I s (loadProgram.run o i) P := by
  refine Ensures.bind (P := fun f t => P (.flow f) t) ?_ fun _ _ h => ensures_pure h
  refine Steady.reading hs fun ⟨v, position⟩ => Steady.parse hs fun p hp => ?_
  refine Steady.parse hs fun k hk => ?_
  cases his : Instruction.decodeAll v with
  | error e =>
    rw [Program.decode, his] at hp
    cases hp
  | ok is =>
    rw [Program.decode, his] at hp
    cases hp
    refine hP is k ?_
    unfold Action.checkTarget at hk
    split at hk
    · rename_i hlt
      cases hk
      exact hlt
    · cases hk

/-- Native instructions call no handler, whatever it claims. -/
theorem calls_run (op : Opcode) (o : Options) (i : Instruction) (s : Focus) :
    Ensures (fun t => t.world.calls = s.world.calls) s (op.run o i)
      fun _ t => t.world.calls = s.world.calls := by
  have hsteady : Steady o fun t => t.world.calls = s.world.calls := steady_calls o s.world.calls
  have hatOnce {a : Action Flow} (h : Maintains (fun t => t.world.calls = s.world.calls) s a) :
      Ensures (fun t => t.world.calls = s.world.calls) s (Action.atOnce a)
        fun _ t => t.world.calls = s.world.calls :=
    h.bind fun _ _ ht => ensures_pure ht
  by_cases hedits : op.EditsProgram
  · cases op with
    | spawn byLabel joined =>
      refine ensures_spawn rfl (fun _ _ _ => rfl) fun first past _ => ?_
      cases joined <;> rfl
    | loadProgram => exact ensures_loadProgram rfl fun _ _ _ => rfl
    | _ => exact hedits.elim
  · by_cases hleaves : op.LeavesNamespace
    · cases op with
      | switchNamespace =>
        refine hatOnce (Steady.reading rfl fun id => ensures_get ?_)
        split <;> exact rfl
      | deleteNamespace =>
        refine hatOnce (Steady.reading rfl fun _ => ensures_get ?_)
        exact Steady.parse rfl fun _ _ => rfl
      | pruneNamespaces => exact hatOnce (ensures_get rfl)
      | _ => exact hleaves.elim
    · by_cases hstops : op = .stopAll
      · subst hstops
        exact hatOnce rfl
      · exact (hsteady.ensures_native rfl op i hedits hleaves hstops).imp fun _ _ ht => ht.1

end Opcode

/-! ## Passive properties -/

namespace Passive

variable {o : Options} {I : Focus → Prop} {s : Focus} (hI : Passive o I) (hs : I s)
include hI hs

theorem maintains_callHook (hook : Hook) (i : Instruction) :
    Maintains I s (Action.callHook hook i) :=
  hI.stable.maintains_callHook hs hook i

theorem abides_setTable (t : Table) : Action.Abides I s (do Action.setTable t; return .next) :=
  Steady.abides_of_maintains (ensures_modify (hI.table t hs)) fun _ => trivial

theorem abides_switchNamespace (i : Instruction) :
    Action.Abides I s (Action.switchNamespace i) := by
  refine Steady.reading hs fun id => ensures_get ?_
  split
  · exact ⟨hI.active id hs, trivial⟩
  · exact ensures_throw hs _

theorem abides_deleteNamespace (i : Instruction) :
    Action.Abides I s (Action.deleteNamespace i) :=
  Steady.reading hs fun _ => ensures_get (Steady.parse hs fun _ _ => hI.abides_setTable hs _)

theorem abides_pruneNamespaces : Action.Abides I s Action.pruneNamespaces :=
  ensures_get (hI.abides_setTable hs _)

theorem abides_stopAll : Action.Abides I s Action.stopAll :=
  ⟨hI.stopped hs, trivial⟩

/-- What an instruction ensures follows from what its opcode does to the program, and from the
passive properties for all other opcodes. -/
theorem ensures_instruction {P : Effect → Focus → Prop} (i : Instruction)
    (hplain : ∀ effect t, I t → effect.Plain t → P effect t)
    (hspawn : ∀ byLabel joined, Opcode.ofCode? i.opcode = some (.spawn byLabel joined) →
      Ensures I s ((Opcode.spawn byLabel joined).run o i) P)
    (hload : Opcode.ofCode? i.opcode = some .loadProgram →
      Ensures I s (Opcode.loadProgram.run o i) P) :
    Ensures I s (i.run o) P := by
  have hatOnce {a : Action Flow} (h : Action.Abides I s a) : Ensures I s (Action.atOnce a) P :=
    (Steady.ensures_atOnce h).imp fun effect t ht => hplain effect t ht.1 ht.2
  refine hI.stable.ensures_instruction hs i hplain ?_ ?_ fun _ => hatOnce (hI.abides_stopAll hs)
  · intro op hop hedits
    cases op with
    | spawn byLabel joined => exact hspawn byLabel joined hop
    | loadProgram => exact hload hop
    | _ => exact hedits.elim
  · intro op _ hleaves
    cases op with
    | switchNamespace => exact hatOnce (hI.abides_switchNamespace hs i)
    | deleteNamespace => exact hatOnce (hI.abides_deleteNamespace hs i)
    | pruneNamespaces => exact hatOnce (hI.abides_pruneNamespaces hs)
    | _ => exact hleaves.elim

end Passive

end CellMachine
