import CellMachine.Proofs.Machine.Sequential

/-!
# Machines in disguise

This module compares two runs that differ only in the sink and the primary files, and in whether the
program is superuser. A `Disguise` says how these look in the second run. `Disguise.Mirrors` says
that an action does the same in both, so that the states after it differ by the disguise again.

Instructions touch the sink and the primary files in few places: they print, they use files, and
they ask whether the primary files are restricted. A disguise that mirrors these places
(`Disguise.Covers`) mirrors every instruction but the one that looks at the sink, and then turns,
steps and whole runs of the machine.
-/

namespace CellMachine

/-- How the sink and the primary files of a run look in another run, and for which worlds this is
meant. -/
structure Disguise where
  sink : Option Sink → Option Sink
  primary : Provider → Provider
  -- The sinks, the primary files and the bundle's files that the disguise is meant for.
  Suits : Option Sink → Provider → Option Provider → Prop

namespace Disguise

def world (d : Disguise) (w : World) : World :=
  { w with sink := d.sink w.sink, primary := d.primary w.primary }

def focus (d : Disguise) (s : Focus) : Focus := ⟨d.world s.world, s.exec⟩

def machine (d : Disguise) (m : Machine) : Machine := { m with world := d.world m.world }

def execution (d : Disguise) (x : Execution) : Execution := { x with world := d.world x.world }

def Fits (d : Disguise) (w : World) : Prop := d.Suits w.sink w.primary w.bundle

variable {d : Disguise} {ε α β : Type} {s s' : Focus}

@[simp] theorem focus_exec : (d.focus s).exec = s.exec := rfl

@[simp] theorem focus_table : (d.focus s).world.table = s.world.table := rfl

@[simp] theorem focus_host : (d.focus s).world.host = s.world.host := rfl

@[simp] theorem focus_bundle : (d.focus s).world.bundle = s.world.bundle := rfl

@[simp] theorem focus_input : (d.focus s).world.input = s.world.input := rfl

@[simp] theorem focus_stopped : (d.focus s).world.stopped = s.world.stopped := rfl

/-! ## Actions -/

/-- In the other state the action `b` does what `a` does in the state `s`. -/
def Mirrors (d : Disguise) (s : Focus) (a b : EStateM ε Focus α) : Prop :=
  match a s with
  | .ok v s' => d.Fits s'.world ∧ b (d.focus s) = .ok v (d.focus s')
  | .error e s' => d.Fits s'.world ∧ b (d.focus s) = .error e (d.focus s')

theorem mirrors_of_ok {a b : EStateM ε Focus α} {v : α} {t : Focus} (ha : a s = .ok v t)
    (hfits : d.Fits t.world) (hb : b (d.focus s) = .ok v (d.focus t)) : d.Mirrors s a b := by
  rw [Mirrors, ha]
  exact ⟨hfits, hb⟩

theorem mirrors_of_error {a b : EStateM ε Focus α} {e : ε} {t : Focus} (ha : a s = .error e t)
    (hfits : d.Fits t.world) (hb : b (d.focus s) = .error e (d.focus t)) : d.Mirrors s a b := by
  rw [Mirrors, ha]
  exact ⟨hfits, hb⟩

theorem Mirrors.of_ok {a b : EStateM ε Focus α} (h : d.Mirrors s a b) {v : α}
    (ha : a s = .ok v s') : d.Fits s'.world ∧ b (d.focus s) = .ok v (d.focus s') := by
  rwa [Mirrors, ha] at h

theorem Mirrors.of_error {a b : EStateM ε Focus α} (h : d.Mirrors s a b) {e : ε}
    (ha : a s = .error e s') : d.Fits s'.world ∧ b (d.focus s) = .error e (d.focus s') := by
  rwa [Mirrors, ha] at h

theorem Mirrors.congr {a a' b b' : EStateM ε Focus α} (h : d.Mirrors s a b) (ha : a' s = a s)
    (hb : b' (d.focus s) = b (d.focus s)) : d.Mirrors s a' b' := by
  rwa [Mirrors, ha, hb]

theorem Mirrors.pure (h : d.Fits s.world) (v : α) :
    d.Mirrors s (pure v : EStateM ε Focus α) (pure v) :=
  ⟨h, rfl⟩

theorem Mirrors.throw (h : d.Fits s.world) (e : ε) :
    d.Mirrors s (throw e : EStateM ε Focus α) (throw e) :=
  ⟨h, rfl⟩

theorem Mirrors.modify {g : Focus → Focus} (h : d.Fits (g s).world)
    (hg : g (d.focus s) = d.focus (g s)) :
    d.Mirrors s (modify g : EStateM ε Focus Unit) (modify g) :=
  ⟨h, congrArg (EStateM.Result.ok ()) hg⟩

theorem Mirrors.set {t : Focus} (h : d.Fits t.world) :
    d.Mirrors s (set t : EStateM ε Focus PUnit) (set (d.focus t)) :=
  ⟨h, rfl⟩

theorem Mirrors.bind {a b : EStateM ε Focus α} {k l : α → EStateM ε Focus β}
    (h : d.Mirrors s a b)
    (hk : ∀ v s', a s = .ok v s' → d.Fits s'.world → d.Mirrors s' (k v) (l v)) :
    d.Mirrors s (a >>= k) (b >>= l) := by
  cases ha : a s with
  | ok v s' =>
    obtain ⟨hfits, hb⟩ := h.of_ok ha
    have hrest := hk v s' ha hfits
    rwa [Mirrors, Stateful.bind_of_ok ha, Stateful.bind_of_ok hb]
  | error e s' =>
    obtain ⟨hfits, hb⟩ := h.of_error ha
    exact mirrors_of_error (Stateful.bind_of_error ha k) hfits (Stateful.bind_of_error hb l)

theorem Mirrors.get {k l : Focus → EStateM ε Focus β}
    (h : d.Mirrors s (k s) (l (d.focus s))) : d.Mirrors s (get >>= k) (get >>= l) :=
  h

theorem Mirrors.ofExcept (h : d.Fits s.world) (r : Except Fault α) :
    d.Mirrors s (Action.ofExcept r) (Action.ofExcept r) := by
  cases r with
  | ok v => exact .pure h v
  | error f => exact .throw h _

theorem Mirrors.adaptExcept {δ : Type} {a b : EStateM ε Focus α} (h : d.Mirrors s a b)
    (f : ε → δ) : d.Mirrors s (a.adaptExcept f) (b.adaptExcept f) := by
  cases ha : a s with
  | ok v s' =>
    obtain ⟨hfits, hb⟩ := h.of_ok ha
    refine mirrors_of_ok (v := v) (t := s') ?_ hfits ?_
    · rw [EStateM.adaptExcept, ha]
    · rw [EStateM.adaptExcept, hb]
  | error e s' =>
    obtain ⟨hfits, hb⟩ := h.of_error ha
    refine mirrors_of_error (e := f e) (t := s') ?_ hfits ?_
    · rw [EStateM.adaptExcept, ha]
    · rw [EStateM.adaptExcept, hb]

/-- Go on with the same value in both runs. -/
theorem Mirrors.return {a b : EStateM ε Focus α} (h : d.Mirrors s a b) (v : β) :
    d.Mirrors s (a >>= fun _ => Pure.pure v) (b >>= fun _ => Pure.pure v) :=
  h.bind fun _ _ _ hfits => .pure hfits v

/-! ## Cells -/

section Instructions

variable (h : d.Fits s.world)
include h

theorem mirrors_memory : d.Mirrors s Action.memory Action.memory :=
  .get (.ofExcept h _)

theorem mirrors_reading (f : Namespace → Except Fault α) :
    d.Mirrors s (Action.reading f) (Action.reading f) :=
  (mirrors_memory h).bind fun _ _ _ hfits => .ofExcept hfits _

omit h in
theorem mirrors_modifyWorld {g : World → World} (hfits : d.Fits (g s.world))
    (hg : g (d.world s.world) = d.world (g s.world)) :
    d.Mirrors s (Action.modifyWorld g) (Action.modifyWorld g) :=
  .modify hfits (congrArg (Focus.mk · s.exec) hg)

theorem mirrors_modifyExec (g : Executor → Executor) :
    d.Mirrors s (Action.modifyExec g) (Action.modifyExec g) :=
  .modify h rfl

theorem mirrors_setTable (t : Table) : d.Mirrors s (Action.setTable t) (Action.setTable t) :=
  mirrors_modifyWorld h rfl

theorem mirrors_setMemory (ns : Namespace) :
    d.Mirrors s (Action.setMemory ns) (Action.setMemory ns) :=
  .get ((Mirrors.ofExcept h _).bind fun _ _ _ hfits => mirrors_setTable hfits _)

theorem mirrors_setCell (address : UInt32) (value : Bytes) :
    d.Mirrors s (Action.setCell address value) (Action.setCell address value) :=
  (mirrors_memory h).bind fun _ _ _ hfits => mirrors_setMemory hfits _

theorem mirrors_emit (bytes : Bytes) : d.Mirrors s (Action.emit bytes) (Action.emit bytes) :=
  mirrors_modifyExec h _

theorem mirrors_data (op : DataOp) (i : Instruction) :
    d.Mirrors s (Action.data op i) (Action.data op i) := by
  refine .get ((Mirrors.ofExcept h _).bind fun v _ _ hfits => ?_)
  exact (mirrors_setCell hfits _ _).return _

theorem mirrors_deleteCell (i : Instruction) :
    d.Mirrors s (Action.deleteCell i) (Action.deleteCell i) := by
  refine (Mirrors.ofExcept h _).bind fun _ _ _ hfits => ?_
  refine (mirrors_reading hfits _).bind fun _ _ _ hfits => ?_
  exact (mirrors_setMemory hfits _).return _

theorem mirrors_clearMemory : d.Mirrors s Action.clearMemory Action.clearMemory := by
  refine (mirrors_memory h).bind fun _ _ _ hfits => ?_
  exact (mirrors_setMemory hfits _).return _

theorem mirrors_restore (i : Instruction) :
    d.Mirrors s (Action.restore i) (Action.restore i) := by
  refine (mirrors_reading h _).bind fun _ _ _ hfits => ?_
  exact (mirrors_setMemory hfits _).return _

/-! ## Control -/

theorem mirrors_jump (c : Condition) (i : Instruction) :
    d.Mirrors s (Action.jump c i) (Action.jump c i) :=
  .get (mirrors_reading h _)

theorem mirrors_branch (c : Condition) (i : Instruction) :
    d.Mirrors s (Action.branch c i) (Action.branch c i) :=
  .get (mirrors_reading h _)

theorem mirrors_jumpLabel (c : Condition) (i : Instruction) :
    d.Mirrors s (Action.jumpLabel c i) (Action.jumpLabel c i) := by
  refine .get ((mirrors_reading h _).bind fun holds _ _ hfits => ?_)
  cases holds with
  | true => exact (Mirrors.ofExcept hfits _).bind fun _ _ _ hfits => .pure hfits _
  | false => exact .pure hfits _

theorem mirrors_branchLabel (c : Condition) (i : Instruction) :
    d.Mirrors s (Action.branchLabel c i) (Action.branchLabel c i) := by
  refine .get ((mirrors_reading h _).bind fun holds _ _ hfits => ?_)
  cases holds <;> exact (Mirrors.ofExcept hfits _).bind fun _ _ _ hfits => .pure hfits _

theorem mirrors_halt (i : Instruction) : d.Mirrors s (Action.halt i) (Action.halt i) := by
  unfold Action.halt
  split
  · exact .pure h _
  · refine (mirrors_reading h _).bind fun _ _ _ hfits => ?_
    exact (mirrors_emit hfits _).return _

theorem mirrors_stopAll : d.Mirrors s Action.stopAll Action.stopAll := by
  refine Mirrors.return (mirrors_modifyWorld ?_ ?_) _
  · exact h
  · rfl

theorem mirrors_setErrorMode (m : ErrorMode) :
    d.Mirrors s (Action.setErrorMode m) (Action.setErrorMode m) :=
  (mirrors_modifyExec h _).return _

/-! ## Namespaces -/

theorem mirrors_switchNamespace (i : Instruction) :
    d.Mirrors s (Action.switchNamespace i) (Action.switchNamespace i) := by
  refine (mirrors_reading h _).bind fun id s' _ hfits => .get ?_
  rw [focus_table]
  cases s'.world.table.contains id with
  | true => exact (mirrors_modifyExec hfits _).return _
  | false => exact .throw hfits _

theorem mirrors_createNamespace (i : Instruction) :
    d.Mirrors s (Action.createNamespace i) (Action.createNamespace i) := by
  refine (mirrors_reading h _).bind fun _ _ _ hfits => .get ?_
  exact (mirrors_setTable hfits _).return _

theorem mirrors_deleteNamespace (i : Instruction) :
    d.Mirrors s (Action.deleteNamespace i) (Action.deleteNamespace i) := by
  refine (mirrors_reading h _).bind fun _ _ _ hfits => .get ?_
  refine (Mirrors.ofExcept hfits _).bind fun _ _ _ hfits => ?_
  exact (mirrors_setTable hfits _).return _

theorem mirrors_listNamespaces (i : Instruction) :
    d.Mirrors s (Action.listNamespaces i) (Action.listNamespaces i) := by
  refine (Mirrors.ofExcept h _).bind fun _ _ _ hfits => .get ?_
  exact (mirrors_setCell hfits _ _).return _

theorem mirrors_pruneNamespaces : d.Mirrors s Action.pruneNamespaces Action.pruneNamespaces :=
  .get ((mirrors_setTable h _).return _)

theorem mirrors_copyToNamespace (i : Instruction) :
    d.Mirrors s (Action.copyToNamespace i) (Action.copyToNamespace i) := by
  refine (Mirrors.ofExcept h _).bind fun _ _ _ hfits => ?_
  refine (mirrors_reading hfits _).bind fun _ _ _ hfits => .get ?_
  refine (Mirrors.ofExcept hfits _).bind fun _ _ _ hfits => ?_
  refine (Mirrors.ofExcept hfits _).bind fun _ _ _ hfits => ?_
  exact (mirrors_setTable hfits _).return _

/-! ## Input -/

theorem mirrors_onInput (a : InputAction α) :
    d.Mirrors s (Action.onInput a) (Action.onInput a) := by
  refine .get ?_
  rw [focus_input]
  cases a.run s.world.input with
  | ok v input =>
    refine Mirrors.return (mirrors_modifyWorld ?_ ?_) _
    · exact h
    · rfl
  | error e input =>
    refine Mirrors.bind (mirrors_modifyWorld ?_ ?_) fun _ _ _ hfits => .throw hfits _
    · exact h
    · rfl

theorem mirrors_readLine (i : Instruction) :
    d.Mirrors s (Action.readLine i) (Action.readLine i) := by
  refine (Mirrors.ofExcept h _).bind fun _ _ _ hfits => ?_
  refine (mirrors_onInput hfits _).bind fun _ _ _ hfits => ?_
  exact (mirrors_setCell hfits _ _).return _

theorem mirrors_readChars (i : Instruction) :
    d.Mirrors s (Action.readChars i) (Action.readChars i) := by
  refine (Mirrors.ofExcept h _).bind fun _ _ _ hfits => ?_
  refine (mirrors_reading hfits _).bind fun _ _ _ hfits => ?_
  refine (mirrors_onInput hfits _).bind fun _ _ _ hfits => ?_
  exact (mirrors_setCell hfits _ _).return _

/-! ## The program, the output and the time -/

theorem mirrors_runtimeArg (o : Options) (i : Instruction) :
    d.Mirrors s (Action.runtimeArg o i) (Action.runtimeArg o i) := by
  refine (Mirrors.ofExcept h _).bind fun _ _ _ hfits => ?_
  refine (mirrors_reading hfits _).bind fun n _ _ hfits => ?_
  cases o.args[n.toNat]? with
  | some arg => exact (mirrors_setCell hfits _ _).return _
  | none => exact .throw hfits _

theorem mirrors_runtimeArgCount (o : Options) (i : Instruction) :
    d.Mirrors s (Action.runtimeArgCount o i) (Action.runtimeArgCount o i) := by
  refine (Mirrors.ofExcept h _).bind fun _ _ _ hfits => ?_
  exact (mirrors_setCell hfits _ _).return _

theorem mirrors_useFiles (bundle : Bool) :
    d.Mirrors s (Action.useFiles bundle) (Action.useFiles bundle) := by
  refine .get ?_
  rw [focus_bundle]
  cases bundle && s.world.bundle.isNone with
  | true => exact .throw h _
  | false => exact (mirrors_modifyExec h _).return _

theorem mirrors_dumpProgram (i : Instruction) :
    d.Mirrors s (Action.dumpProgram i) (Action.dumpProgram i) := by
  refine (Mirrors.ofExcept h _).bind fun _ _ _ hfits => .get ?_
  exact (mirrors_setCell hfits _ _).return _

theorem mirrors_loadProgram (i : Instruction) :
    d.Mirrors s (Action.loadProgram i) (Action.loadProgram i) := by
  refine (mirrors_reading h _).bind fun _ _ _ hfits => ?_
  refine (Mirrors.ofExcept hfits _).bind fun _ _ _ hfits => ?_
  refine (Mirrors.ofExcept hfits _).bind fun _ _ _ hfits => ?_
  exact (mirrors_modifyExec hfits _).return _

theorem mirrors_getOutput (i : Instruction) :
    d.Mirrors s (Action.getOutput i) (Action.getOutput i) := by
  refine (Mirrors.ofExcept h _).bind fun _ _ _ hfits => .get ?_
  exact (mirrors_setCell hfits _ _).return _

theorem mirrors_setOutput (i : Instruction) :
    d.Mirrors s (Action.setOutput i) (Action.setOutput i) := by
  refine (mirrors_reading h _).bind fun _ _ _ hfits => ?_
  exact (mirrors_modifyExec hfits _).return _

theorem mirrors_epochTime (o : Options) (i : Instruction) :
    d.Mirrors s (Action.epochTime o i) (Action.epochTime o i) := by
  refine (Mirrors.ofExcept h _).bind fun _ _ _ hfits => ?_
  exact (mirrors_setCell hfits _ _).return _

theorem mirrors_localTime (o : Options) (i : Instruction) :
    d.Mirrors s (Action.localTime o i) (Action.localTime o i) := by
  refine (Mirrors.ofExcept h _).bind fun _ _ _ hfits => ?_
  exact (mirrors_setCell hfits _ _).return _

theorem mirrors_sleep (i : Instruction) : d.Mirrors s (Action.sleep i) (Action.sleep i) := by
  refine (mirrors_reading h _).bind fun seconds _ _ hfits => ?_
  cases Action.nanoseconds seconds with
  | ok n => exact (mirrors_modifyExec hfits _).return _
  | error e => exact .throw hfits _

theorem mirrors_compileSource (i : Instruction) :
    d.Mirrors s (Action.compileSource i) (Action.compileSource i) := by
  refine (Mirrors.ofExcept h _).bind fun _ _ _ hfits => ?_
  refine (mirrors_reading hfits _).bind fun source _ _ hfits => ?_
  refine (mirrors_setCell hfits _ _).bind fun _ _ _ hfits => ?_
  cases (Source.compile source).error with
  | some e => exact .throw hfits _
  | none => exact .pure hfits _

/-! ## Threads and programs in place -/

theorem mirrors_askForThread : d.Mirrors s Action.askForThread Action.askForThread := by
  refine .get ?_
  rw [focus_host]
  cases s.world.host.refusal with
  | some reason => exact .throw h _
  | none => exact .pure h _

theorem mirrors_spawn (first past : Nat) (joined : Bool) :
    d.Mirrors s (Action.spawn first past joined) (Action.spawn first past joined) := by
  refine .get ((Mirrors.ofExcept h _).bind fun _ _ _ hfits => ?_)
  refine (mirrors_modifyExec hfits _).bind fun _ _ _ hfits => ?_
  refine (mirrors_askForThread hfits).bind fun _ _ _ hfits => ?_
  cases joined with
  | true => exact .pure hfits _
  | false =>
    refine Mirrors.return (mirrors_modifyWorld ?_ ?_) _
    · exact hfits
    · rfl

theorem mirrors_spawnCells (joined : Bool) (i : Instruction) :
    d.Mirrors s (Action.spawnCells joined i) (Action.spawnCells joined i) :=
  (mirrors_reading h _).bind fun _ _ _ hfits => mirrors_spawn hfits _ _ _

theorem mirrors_spawnLabels (joined : Bool) (i : Instruction) :
    d.Mirrors s (Action.spawnLabels joined i) (Action.spawnLabels joined i) := by
  refine .get ((Mirrors.ofExcept h _).bind fun _ _ _ hfits => ?_)
  refine (Mirrors.ofExcept hfits _).bind fun _ _ _ hfits => ?_
  exact mirrors_spawn hfits _ _ _

theorem mirrors_run (binary : Bytes) (active : UInt32) (reception : Reception) :
    d.Mirrors s (Action.run binary active reception) (Action.run binary active reception) :=
  (Mirrors.ofExcept h _).bind fun _ _ _ hfits => .get (.pure hfits _)

theorem mirrors_runSource (i : Instruction) :
    d.Mirrors s (Action.runSource i) (Action.runSource i) :=
  (mirrors_reading h _).bind fun _ _ _ hfits => .get (mirrors_run hfits _ _ _)

theorem mirrors_runBinary (i : Instruction) :
    d.Mirrors s (Action.runBinary i) (Action.runBinary i) :=
  (mirrors_reading h _).bind fun _ _ _ hfits => .get (mirrors_run hfits _ _ _)

theorem mirrors_unbindExtension :
    d.Mirrors s Action.unbindExtension Action.unbindExtension :=
  .get ((mirrors_setTable h _).return _)

end Instructions

/-! ## Where the disguise shows -/

/-- The disguise mirrors the places where the sink, the primary files and the superuser count, for a
program that is superuser in the other run if `superuser` says so. -/
structure Covers (d : Disguise) (o : Options) (superuser : Bool) : Prop where
  print (s : Focus) (text : String) :
    d.Fits s.world → d.Mirrors s (Guarded.print text) (Guarded.print text)
  check (s : Focus) (action target : String) : d.Fits s.world →
    d.Mirrors s (Action.checkRestricted o action target)
      (Action.checkRestricted { o with superuser } action target)
  read (s : Focus) (name : String) : d.Fits s.world →
    d.Mirrors s (Action.onFiles (Provider.read name)) (Action.onFiles (Provider.read name))
  write (s : Focus) (name : String) (data : Bytes) : d.Fits s.world →
    d.Mirrors s (Action.onFiles (Provider.write o.superuser name data))
      (Action.onFiles (Provider.write superuser name data))
  delete (s : Focus) (name : String) : d.Fits s.world →
    d.Mirrors s (Action.onFiles (Provider.delete o.superuser name))
      (Action.onFiles (Provider.delete superuser name))
  list (s : Focus) : d.Fits s.world →
    d.Mirrors s (Action.onFiles Provider.list) (Action.onFiles Provider.list)
  runCommand (s : Focus) (line : String) : d.Fits s.world →
    d.Mirrors s (Action.onFiles (Provider.runCommand o.superuser line))
      (Action.onFiles (Provider.runCommand superuser line))

section Covered

variable {o : Options} {superuser : Bool} (hd : d.Covers o superuser)
include hd

theorem mirrors_print (h : d.Fits s.world) (text : String) :
    d.Mirrors s (Action.print text) (Action.print text) := by
  have hprint (t : Focus) : Action.print text t = (Guarded.print text).adaptExcept .panic t := by
    rw [Action.print, EStateM.adaptExcept]
    cases Guarded.print text t <;> rfl
  exact ((hd.print s text h).adaptExcept .panic).congr (hprint s) (hprint _)

theorem mirrors_dumpMemory (h : d.Fits s.world) :
    d.Mirrors s Action.dumpMemory Action.dumpMemory :=
  (mirrors_memory h).bind fun _ _ _ hfits => (mirrors_print hd hfits _).return _

theorem mirrors_readFile (h : d.Fits s.world) (i : Instruction) :
    d.Mirrors s (Action.readFile i) (Action.readFile i) := by
  refine (Mirrors.ofExcept h _).bind fun _ _ _ hfits => ?_
  refine (mirrors_reading hfits _).bind fun _ _ _ hfits => ?_
  refine (hd.read _ _ hfits).bind fun _ _ _ hfits => ?_
  exact (mirrors_setCell hfits _ _).return _

theorem mirrors_writeFile (h : d.Fits s.world) (i : Instruction) :
    d.Mirrors s (Action.writeFile o i) (Action.writeFile { o with superuser } i) := by
  refine (mirrors_reading h _).bind fun _ _ _ hfits => ?_
  exact (hd.write _ _ _ hfits).return _

theorem mirrors_deleteFile (h : d.Fits s.world) (i : Instruction) :
    d.Mirrors s (Action.deleteFile o i) (Action.deleteFile { o with superuser } i) := by
  refine (mirrors_reading h _).bind fun _ _ _ hfits => ?_
  exact (hd.delete _ _ hfits).return _

theorem mirrors_listFiles (h : d.Fits s.world) (i : Instruction) :
    d.Mirrors s (Action.listFiles i) (Action.listFiles i) := by
  refine (Mirrors.ofExcept h _).bind fun _ _ _ hfits => ?_
  refine (hd.list _ hfits).bind fun _ _ _ hfits => ?_
  exact (mirrors_setCell hfits _ _).return _

theorem mirrors_runCommand (h : d.Fits s.world) (i : Instruction) :
    d.Mirrors s (Action.runCommand o i) (Action.runCommand { o with superuser } i) := by
  refine (Mirrors.ofExcept h _).bind fun _ _ _ hfits => ?_
  refine (mirrors_reading hfits _).bind fun _ _ _ hfits => ?_
  refine (hd.runCommand _ _ hfits).bind fun _ _ _ hfits => ?_
  exact (mirrors_setCell hfits _ _).return _

theorem mirrors_importModule (h : d.Fits s.world) (i : Instruction) :
    d.Mirrors s (Action.importModule o i) (Action.importModule { o with superuser } i) := by
  refine (mirrors_reading h _).bind fun ⟨name, id⟩ s' _ hfits => .get ?_
  rw [focus_table]
  cases s'.world.table.contains id with
  | true =>
    refine (hd.check _ _ _ hfits).bind fun _ _ _ hfits => ?_
    refine (hd.read _ _ hfits).bind fun _ _ _ hfits => ?_
    exact mirrors_run hfits _ _ _
  | false => exact .throw hfits _

/-! ## Extensions -/

theorem mirrors_resolveExtension (h : d.Fits s.world) (name : String) :
    d.Mirrors s (Action.resolveExtension o name)
      (Action.resolveExtension { o with superuser } name) := by
  unfold Action.resolveExtension
  cases o.registry.get? name with
  | some make => exact .get (.pure h _)
  | none =>
    cases o.pluginDirs.isEmpty with
    | true => exact .throw h _
    | false =>
      refine (hd.check _ _ _ h).bind fun _ s' _ hfits => .get ?_
      rw [focus_host]
      dsimp only
      cases Plugin.find? s'.world.host name o.pluginDirs with
      | none => exact .throw hfits _
      | some path => exact (Mirrors.ofExcept hfits _).bind fun _ _ _ hfits => .pure hfits _

theorem mirrors_bindExtension (h : d.Fits s.world) (i : Instruction) :
    d.Mirrors s (Action.bindExtension o i) (Action.bindExtension { o with superuser } i) := by
  refine (mirrors_reading h _).bind fun _ _ _ hfits => ?_
  refine (mirrors_resolveExtension hd hfits _).bind fun _ _ _ hfits => .get ?_
  refine (Mirrors.ofExcept hfits _).bind fun _ _ _ hfits => ?_
  refine (mirrors_setTable hfits _).bind fun _ _ _ hfits => ?_
  refine Mirrors.return (mirrors_modifyWorld ?_ ?_) _
  · exact hfits
  · rfl

omit hd in
theorem Mirrors.answer {a b : Action α} (h : d.Mirrors s a b) :
    d.Mirrors s (Act.answer a) (Act.answer b) := by
  cases ha : a s with
  | ok v s' =>
    obtain ⟨hfits, hb⟩ := h.of_ok ha
    refine mirrors_of_ok (v := .ok v) (t := s') ?_ hfits ?_
    · rw [Act.answer, ha]
    · rw [Act.answer, hb]
  | error e s' =>
    obtain ⟨hfits, hb⟩ := h.of_error ha
    cases e with
    | fault f =>
      refine mirrors_of_ok (v := .error f) (t := s') ?_ hfits ?_
      · rw [Act.answer, ha]
      · rw [Act.answer, hb]
    | panic p =>
      refine mirrors_of_error (e := .panic p) (t := s') ?_ hfits ?_
      · rw [Act.answer, ha]
      · rw [Act.answer, hb]

/-- A handler has no way to tell the two runs apart. -/
theorem mirrors_perform (h : d.Fits s.world) (act : Act α) :
    d.Mirrors s act.perform act.perform := by
  -- What a handler does next depends on the answers alone, and these are the same in both runs.
  induction act generalizing s with
  | done a => exact .pure h a
  | refuse message => exact .throw h _
  | panic p => exact .throw h _
  | read address next ih =>
    exact (mirrors_reading h _).answer.bind fun r _ _ hfits => ih r hfits
  | write address value next ih =>
    exact (mirrors_setCell h _ _).answer.bind fun r _ _ hfits => ih r hfits
  | delete address next ih =>
    have hdelete := (mirrors_reading h fun ns => ns.remove address).bind fun ns _ _ hfits =>
      mirrors_setMemory hfits ns
    exact hdelete.answer.bind fun r _ _ hfits => ih r hfits
  | emit bytes next ih => exact (mirrors_emit h _).bind fun _ _ _ hfits => ih hfits
  | print text next ih => exact (mirrors_print hd h _).bind fun _ _ _ hfits => ih hfits
  | lookUp name next ih => exact .get (ih _ h)
  | note name value next ih =>
    refine (mirrors_modifyWorld ?_ ?_).bind fun _ _ _ hfits => ih hfits
    · exact h
    · rfl

theorem mirrors_call (h : d.Fits s.world) (handler : Handler) (hook : Hook) (i : Instruction) :
    d.Mirrors s (handler.call hook i) (handler.call hook i) := by
  -- What the handler is told is the same in both runs.
  have hact := mirrors_perform hd h (handler.hook hook (i.call s))
  cases ha : (handler.hook hook (i.call s)).perform s with
  | ok v t =>
    obtain ⟨hfits, hb⟩ := hact.of_ok ha
    have hother := handler.call_of_ok (i := i) (s := d.focus s) hb
    exact mirrors_of_ok (handler.call_of_ok ha) hfits hother
  | error e t =>
    obtain ⟨hfits, hb⟩ := hact.of_error ha
    have hother := handler.call_of_error (i := i) (s := d.focus s) hb
    exact mirrors_of_error (handler.call_of_error ha) hfits hother

theorem mirrors_callHook (h : d.Fits s.world) (hook : Hook) (i : Instruction) :
    d.Mirrors s (Action.callHook hook i) (Action.callHook hook i) := by
  have hhandler : d.Mirrors s Action.handler? Action.handler? := .get (.pure h _)
  refine hhandler.bind fun handler _ _ hfits => ?_
  cases handler with
  | some handler => exact mirrors_call hd hfits handler hook i
  | none => exact .pure hfits _

theorem mirrors_callExtension (h : d.Fits s.world) (i : Instruction) :
    d.Mirrors s (Action.callExtension i) (Action.callExtension i) := by
  have hhandler : d.Mirrors s Action.handler? Action.handler? := .get (.pure h _)
  refine hhandler.bind fun handler _ _ hfits => ?_
  cases handler with
  | some handler =>
    cases hclaims : handler.claims i.opcode with
    | true =>
      simp only [hclaims, if_true]
      exact (mirrors_call hd hfits handler .handle i).return _
    | false =>
      simp only [hclaims, Bool.false_eq_true, if_false]
      exact .throw hfits _
  | none => exact .throw hfits _

/-! ## Instructions -/

omit hd in
theorem Mirrors.atOnce {a b : Action Flow} (h : d.Mirrors s a b) :
    d.Mirrors s (Action.atOnce a) (Action.atOnce b) :=
  h.bind fun _ _ _ hfits => .pure hfits _

/-- Every native instruction is mirrored, apart from one that looks at the sink. -/
theorem mirrors_native (h : d.Fits s.world) (op : Opcode) (i : Instruction)
    (hwrite : op = .write → d.Mirrors s (Action.write i) (Action.write i)) :
    d.Mirrors s (op.run o i) (op.run { o with superuser } i) := by
  cases op with
  | start | nop | label => exact .pure h _
  | halt => exact (mirrors_halt h i).atOnce
  | stopAll => exact (mirrors_stopAll h).atOnce
  | data op => exact (mirrors_data h op i).atOnce
  | delete => exact (mirrors_deleteCell h i).atOnce
  | clearMemory => exact (mirrors_clearMemory h).atOnce
  | restore => exact (mirrors_restore h i).atOnce
  | jump c => exact (mirrors_jump h c i).atOnce
  | branch c => exact (mirrors_branch h c i).atOnce
  | jumpLabel c => exact (mirrors_jumpLabel h c i).atOnce
  | branchLabel c => exact (mirrors_branchLabel h c i).atOnce
  | setErrorMode m => exact (mirrors_setErrorMode h m).atOnce
  | readLine => exact (mirrors_readLine h i).atOnce
  | readChars => exact (mirrors_readChars h i).atOnce
  | runtimeArg => exact (mirrors_runtimeArg h o i).atOnce
  | runtimeArgCount => exact (mirrors_runtimeArgCount h o i).atOnce
  | dumpMemory => exact (mirrors_dumpMemory hd h).atOnce
  | write => exact (hwrite rfl).atOnce
  | readFile => exact (mirrors_readFile hd h i).atOnce
  | writeFile => exact (mirrors_writeFile hd h i).atOnce
  | deleteFile => exact (mirrors_deleteFile hd h i).atOnce
  | listFiles => exact (mirrors_listFiles hd h i).atOnce
  | runCommand => exact (mirrors_runCommand hd h i).atOnce
  | dumpProgram => exact (mirrors_dumpProgram h i).atOnce
  | loadProgram => exact (mirrors_loadProgram h i).atOnce
  | getOutput => exact (mirrors_getOutput h i).atOnce
  | setOutput => exact (mirrors_setOutput h i).atOnce
  | epochTime => exact (mirrors_epochTime h o i).atOnce
  | localTime => exact (mirrors_localTime h o i).atOnce
  | sleep => exact (mirrors_sleep h i).atOnce
  | useBundleFiles => exact (mirrors_useFiles h true).atOnce
  | usePrimaryFiles => exact (mirrors_useFiles h false).atOnce
  | switchNamespace => exact (mirrors_switchNamespace h i).atOnce
  | createNamespace => exact (mirrors_createNamespace h i).atOnce
  | deleteNamespace => exact (mirrors_deleteNamespace h i).atOnce
  | listNamespaces => exact (mirrors_listNamespaces h i).atOnce
  | pruneNamespaces => exact (mirrors_pruneNamespaces h).atOnce
  | copyToNamespace => exact (mirrors_copyToNamespace h i).atOnce
  | spawn byLabel joined =>
    cases byLabel with
    | true => exact mirrors_spawnLabels h joined i
    | false => exact mirrors_spawnCells h joined i
  | importModule => exact mirrors_importModule hd h i
  | runSource => exact mirrors_runSource h i
  | compileSource => exact (mirrors_compileSource h i).atOnce
  | runBinary => exact mirrors_runBinary h i
  | bindExtension => exact (mirrors_bindExtension hd h i).atOnce
  | unbindExtension => exact (mirrors_unbindExtension h).atOnce

theorem mirrors_instruction (h : d.Fits s.world) (i : Instruction)
    (hwrite : Opcode.ofCode? i.opcode = some .write →
      d.Mirrors s (Action.write i) (Action.write i)) :
    d.Mirrors s (i.run o) (i.run { o with superuser }) := by
  unfold Instruction.run
  cases hop : Opcode.ofCode? i.opcode with
  | some op => exact mirrors_native hd h op i fun heq => hwrite (heq ▸ hop)
  | none => exact (mirrors_callExtension hd h i).atOnce

/-! ## Turns -/

theorem mirrors_finish (h : d.Fits s.world) (i : Instruction) (f : Flow) :
    d.Mirrors s (Action.finish i f) (Action.finish i f) :=
  (mirrors_callHook hd h .after i).bind fun _ _ _ hfits => mirrors_modifyExec hfits _

theorem mirrors_runInstruction (h : d.Fits s.world) (i : Instruction)
    (hwrite : ∀ t, d.Fits t.world → Action.callHook .before i s = .ok () t →
      Opcode.ofCode? i.opcode = some .write → d.Mirrors t (Action.write i) (Action.write i)) :
    d.Mirrors s (Action.runInstruction o i) (Action.runInstruction { o with superuser } i) := by
  refine (mirrors_callHook hd h .before i).bind fun _ t ht hfits => ?_
  refine (mirrors_instruction hd hfits i (hwrite t hfits ht)).bind fun effect _ _ hfits => ?_
  cases effect with
  | flow f => exact (mirrors_finish hd hfits i f).return _
  | call callee reception => exact .pure hfits _
  | join child => exact .pure hfits _

theorem mirrors_handle (h : d.Fits s.world) (f : Fault) :
    d.Mirrors s (Guarded.handle f) (Guarded.handle f) := by
  refine .get ?_
  dsimp only
  rw [focus_exec]
  cases s.exec.mode.displays with
  | true =>
    refine Mirrors.bind (Mirrors.modify ?_ ?_) fun _ _ _ hfits => ?_
    · exact h
    · rfl
    · refine (hd.print _ _ hfits).bind fun _ _ _ hfits => .modify ?_ ?_
      · exact hfits
      · rfl
  | false =>
    refine Mirrors.modify ?_ ?_
    · exact h
    · rfl

theorem Mirrors.attempt {a b : Action α} (h : d.Mirrors s a b) :
    d.Mirrors s (Guarded.attempt a) (Guarded.attempt b) := by
  cases ha : a s with
  | ok v s' =>
    obtain ⟨hfits, hb⟩ := h.of_ok ha
    refine mirrors_of_ok (v := some v) (t := s') ?_ hfits ?_
    · rw [Guarded.attempt, ha]
    · rw [Guarded.attempt, hb]
  | error e s' =>
    obtain ⟨hfits, hb⟩ := h.of_error ha
    cases e with
    | panic p =>
      refine mirrors_of_error (e := p) (t := s') ?_ hfits ?_
      · rw [Guarded.attempt, ha]
      · rw [Guarded.attempt, hb]
    | fault f =>
      -- The fault may be printed, and the sink may then have a panic of its own.
      have hhandle := mirrors_handle hd hfits f
      cases hf : Guarded.handle f s' with
      | ok u t =>
        obtain ⟨hfits', hg⟩ := hhandle.of_ok hf
        refine mirrors_of_ok (v := none) (t := t) ?_ hfits' ?_
        · simp only [Guarded.attempt, ha, hf]
        · simp only [Guarded.attempt, hb, hg]
      | error p t =>
        obtain ⟨hfits', hg⟩ := hhandle.of_error hf
        refine mirrors_of_error (e := p) (t := t) ?_ hfits' ?_
        · simp only [Guarded.attempt, ha, hf]
        · simp only [Guarded.attempt, hb, hg]

/-- A turn is mirrored if the write that it may dispatch is. -/
theorem mirrors_turn (h : d.Fits s.world)
    (hwrite : ∀ i t, d.Fits t.world → s.Dispatches o i t →
      Opcode.ofCode? i.opcode = some .write → d.Mirrors t (Action.write i) (Action.write i)) :
    d.Mirrors s (Guarded.turn o) (Guarded.turn { o with superuser }) := by
  refine .get ?_
  -- Nothing that decides about the turn is disguised.
  have hlimit : s.exec.isExhausted { o with superuser } = s.exec.isExhausted o := rfl
  rw [focus_exec, focus_stopped, hlimit]
  cases hidle : !s.exec.isLive || s.world.stopped with
  | true => exact .pure h _
  | false =>
    cases hexhausted : s.exec.isExhausted o with
    | true => exact (mirrors_handle hd h _).return _
    | false =>
      cases hi : s.exec.program.get? s.exec.ip with
      | none => exact .pure h _
      | some i =>
        obtain ⟨hlive, hrunning⟩ := Bool.or_eq_false_iff.1 hidle
        have hset (t : Focus) (ht : d.Fits t.world) :
            d.Mirrors s (set t : Guarded PUnit) (set (d.focus t)) := .set ht
        refine (hset { s with exec := { s.exec with steps := s.exec.steps + 1 } } h).bind
          fun _ t ht hfits => ?_
        cases ht
        refine (Mirrors.attempt hd ?_).bind fun turn _ _ hfits => .pure hfits _
        refine mirrors_runInstruction hd hfits i fun t hfits ht => hwrite i t hfits ?_
        exact ⟨by simpa using hlive, hrunning, hexhausted, hi, ht⟩

theorem mirrors_receive (h : d.Fits s.world) (i : Instruction) (r : Reception)
    (outcome : Outcome) :
    d.Mirrors s (Action.receive i r outcome) (Action.receive i r outcome) := by
  cases r with
  | ignore => exact mirrors_finish hd h i .next
  | append failure =>
    refine (mirrors_emit h _).bind fun _ _ _ hfits => ?_
    cases failure with
    | some f =>
      exact Mirrors.bind (.throw hfits _) fun _ _ _ hfits => mirrors_finish hd hfits i .next
    | none => exact mirrors_finish hd hfits i .next

theorem mirrors_receiveJoined (h : d.Fits s.world) (i : Instruction)
    (result : Except Panic Outcome) :
    d.Mirrors s (Action.receiveJoined i result) (Action.receiveJoined i result) := by
  cases result with
  | ok outcome => exact (mirrors_emit h _).bind fun _ _ _ hfits => mirrors_finish hd hfits i .next
  | error p => exact .throw h _

/-! ## Machines -/

omit hd in
theorem fits_put {m : Machine} {w : World} (h : d.Fits w) (n : Nat) (t : Thread) :
    d.Fits (m.put n t w).world :=
  h

/-- Taking up an instruction again is mirrored if the action that does so is. -/
theorem resumed_machine {m : Machine} {a b : Action Unit} (h : d.Mirrors s a b) (n : Nat)
    (callers : List Suspended) :
    (d.machine m).resumed n callers b (d.focus s) = d.machine (m.resumed n callers a s) ∧
      d.Fits (m.resumed n callers a s).world := by
  have hattempt := h.attempt hd
  unfold Machine.resumed
  cases ha : Guarded.attempt a s with
  | ok v s' =>
    obtain ⟨hfits, hb⟩ := hattempt.of_ok ha
    rw [hb]
    exact ⟨rfl, fits_put hfits _ _⟩
  | error p s' =>
    obtain ⟨hfits, hb⟩ := hattempt.of_error ha
    rw [hb]
    exact ⟨rfl, fits_put hfits _ _⟩

theorem advance_machine {m : Machine} {n : Nat} (h : d.Fits m.world)
    (hwrite : ∀ i t, d.Fits t.world → m.Dispatches o n i t →
      Opcode.ofCode? i.opcode = some .write → d.Mirrors t (Action.write i) (Action.write i)) :
    (d.machine m).advance { o with superuser } n = d.machine (m.advance o n) ∧
      d.Fits (m.advance o n).world := by
  have hthreads : (d.machine m).threads[n]? = m.threads[n]? := rfl
  unfold Machine.advance
  rw [hthreads]
  cases hthread : m.threads[n]? with
  | none => exact ⟨rfl, h⟩
  | some thread =>
    cases thread with
    | running e callers =>
      have hturn : d.Mirrors ⟨m.world, e⟩ (Guarded.turn o) (Guarded.turn { o with superuser }) :=
        mirrors_turn hd h fun i t hfits hi => hwrite i t hfits ⟨e, callers, hthread, hi⟩
      have hfocus : (⟨(d.machine m).world, e⟩ : Focus) = d.focus ⟨m.world, e⟩ := rfl
      simp only [hfocus]
      cases hrun : Guarded.turn o ⟨m.world, e⟩ with
      | ok turn s' =>
        obtain ⟨hfits, hother⟩ := hturn.of_ok hrun
        rw [hother]
        cases turn with
        | ready => exact ⟨rfl, fits_put hfits _ _⟩
        | calling i callee reception => exact ⟨rfl, fits_put hfits _ _⟩
        | joining i child => exact ⟨rfl, hfits⟩
        | done =>
          -- The outcome goes to the executor that has been waiting for it, if there is one.
          cases callers with
          | nil => exact ⟨rfl, fits_put hfits _ _⟩
          | cons c callers =>
            have hreceive := mirrors_receive hd
              (s := ⟨s'.world, { c.exec with clock := s'.exec.clock }⟩) hfits c.instruction
              c.reception s'.exec.outcome
            exact resumed_machine hd (m := m) hreceive n callers
      | error p s' =>
        obtain ⟨hfits, hother⟩ := hturn.of_error hrun
        rw [hother]
        exact ⟨rfl, fits_put hfits _ _⟩
    | waiting e i child callers =>
      have hending : (d.machine m).ending? child = m.ending? child := rfl
      simp only [hending]
      cases m.ending? child with
      | none => exact ⟨rfl, h⟩
      | some ending =>
        have hreceive := mirrors_receiveJoined hd
          (s := ⟨m.world, { e with clock := max e.clock ending.2 }⟩) h i ending.1
        exact resumed_machine hd (m := m) hreceive n callers
    | ended result clock => exact ⟨rfl, h⟩

theorem after_machine {m : Machine} {ev : Event} (h : d.Fits m.world)
    (hwrite : ∀ n i t, ev = .turn n → d.Fits t.world → m.Dispatches o n i t →
      Opcode.ofCode? i.opcode = some .write → d.Mirrors t (Action.write i) (Action.write i)) :
    (d.machine m).after { o with superuser } ev = d.machine (m.after o ev) ∧
      d.Fits (m.after o ev).world := by
  cases ev with
  | turn n => exact advance_machine hd h fun i t => hwrite n i t rfl
  | stop | host refusal => exact ⟨rfl, h⟩

/-- A schedule is mirrored if every write that is dispatched along it is. -/
theorem play_machine {m : Machine} {es : List Event} (h : d.Fits m.world)
    (hwrite : ∀ x ∈ m.history o es, ∀ n i t, x.2 = .turn n → d.Fits t.world →
      x.1.Dispatches o n i t → Opcode.ofCode? i.opcode = some .write →
      d.Mirrors t (Action.write i) (Action.write i)) :
    (d.machine m).play { o with superuser } es = d.machine (m.play o es) := by
  induction es generalizing m with
  | nil => rfl
  | cons ev es ih =>
    obtain ⟨hfirst, hrest⟩ := List.forall_mem_cons.1 hwrite
    obtain ⟨hother, hfits⟩ := after_machine hd h hfirst
    change ((d.machine m).after { o with superuser } ev).play _ es = _
    rw [hother]
    exact ih hfits hrest

/-- If no thread is detached, any other order of turns comes to the same end. -/
theorem play_machine_of_sequential {m : Machine} {ns ns' : List Nat} (h : d.Fits m.world)
    (hm : m.Sequential)
    (hwrite : ∀ x ∈ m.history o (ns.map .turn), ∀ n i t, x.2 = .turn n → d.Fits t.world →
      x.1.Dispatches o n i t → Opcode.ofCode? i.opcode = some .write →
      d.Mirrors t (Action.write i) (Action.write i))
    (hdetached : (m.play o (ns.map .turn)).detached = [])
    (hended : (m.play o (ns.map .turn)).mainEnded = true)
    (hended' : ((d.machine m).play { o with superuser } (ns'.map .turn)).mainEnded = true) :
    (d.machine m).play { o with superuser } (ns'.map .turn) =
      d.machine (m.play o (ns.map .turn)) := by
  have hplay := play_machine hd h hwrite
  have hsequential : (d.machine m).Sequential := hm
  rw [← hplay]
  refine hsequential.play_eq ?_ ?_ hended'
  · rw [hplay]
    exact hdetached
  · rw [hplay]
    exact hended

/-- A run is mirrored if every write that it dispatches is. -/
theorem runUntil_machine {done : Machine → Bool} (hdone : ∀ m, done (d.machine m) = done m)
    {fuel : Nat} {m : Machine} (h : d.Fits m.world)
    (hwrite : ∀ x ∈ m.steps done o fuel, ∀ i t, d.Fits t.world →
      x.1.Dispatches o x.2 i t → Opcode.ofCode? i.opcode = some .write →
      d.Mirrors t (Action.write i) (Action.write i)) :
    (d.machine m).runUntil done { o with superuser } fuel = d.machine (m.runUntil done o fuel) ∧
      d.Fits (m.runUntil done o fuel).world := by
  -- The two machines stay in step, since the clocks decide which thread moves next.
  induction fuel generalizing m with
  | zero => exact ⟨rfl, h⟩
  | succ fuel ih =>
    have hnext : (d.machine m).next? = m.next? := rfl
    rw [Machine.runUntil, Machine.runUntil, hdone, hnext]
    rw [Machine.steps] at hwrite
    cases hm : done m with
    | true => exact ⟨rfl, h⟩
    | false =>
      cases hn : m.next? with
      | none => exact ⟨rfl, h⟩
      | some n =>
        rw [hm, hn] at hwrite
        obtain ⟨hfirst, hrest⟩ := List.forall_mem_cons.1 hwrite
        obtain ⟨hother, hfits⟩ := advance_machine hd h hfirst
        simp only [hother]
        exact ih hfits hrest

/-- An execution is mirrored if every write that it dispatches is. -/
theorem ofMachine_machine {fuel : Nat} {stop : Bool} {m : Machine} (h : d.Fits m.world)
    (hwrite : ∀ x ∈ Execution.steps o fuel stop m, ∀ i t, d.Fits t.world →
      x.1.Dispatches o x.2 i t → Opcode.ofCode? i.opcode = some .write →
      d.Mirrors t (Action.write i) (Action.write i)) :
    Execution.ofMachine { o with superuser } fuel stop (d.machine m) =
      (Execution.ofMachine o fuel stop m).map (Except.map d.execution) := by
  obtain ⟨hmain, hrest⟩ := List.forall_mem_append.1 hwrite
  obtain ⟨hother, hfits⟩ := runUntil_machine hd (fun _ => rfl) h hmain
  have hending : (d.machine (m.runUntil Machine.mainEnded o fuel)).ending? 0 =
    (m.runUntil Machine.mainEnded o fuel).ending? 0 := rfl
  simp only [Execution.ofMachine, hother, hending]
  cases hend : (m.runUntil Machine.mainEnded o fuel).ending? 0 with
  | none => rfl
  | some ending =>
    rcases ending with ⟨p | outcome, clock⟩
    · rfl
    · rw [hend] at hrest
      have hreleased : d.Fits (m.released o fuel stop).world := by
        cases stop <;> exact hfits
      obtain ⟨hother', -⟩ := runUntil_machine hd (fun _ => rfl) hreleased hrest
      -- The second phase starts where the first has led, in both runs.
      let result (x : Machine) : Option (Except Panic Execution) :=
        if x.allEnded then some (.ok ⟨outcome, x.world, x.waitFault⟩) else none
      have hresult : ∀ x, result (d.machine x) = (result x).map (Except.map d.execution) := by
        intro x
        have hended : (d.machine x).allEnded = x.allEnded := rfl
        simp only [result, hended]
        cases x.allEnded <;> rfl
      cases stop with
      | true => exact (congrArg result hother').trans (hresult _)
      | false => exact (congrArg result hother').trans (hresult _)

end Covered

end Disguise

end CellMachine
