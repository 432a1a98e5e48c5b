import CellMachine.Proofs.Files.Provider
import CellMachine.Proofs.Machine.Disguise

/-!
# Superusers

This module proves that restricted files in memory are no obstacle to a superuser: every run is one
with the same files unrestricted, where it does not matter who is superuser. What is asked
before files are changed, before a module is imported and before a plugin is looked for comes to the
same in both.
-/

namespace CellMachine

def Provider.unrestricted : Provider → Provider
  | memory files _ => memory files false
  | directory d => directory { d with restricted := false }

/-- A machine as if its primary files had not been restricted. -/
def Machine.unrestricted (m : Machine) : Machine :=
  { m with world := { m.world with primary := m.world.primary.unrestricted } }

/-- An execution as if its primary files had not been restricted. -/
def Execution.unrestricted (x : Execution) : Execution :=
  { x with world := { x.world with primary := x.world.primary.unrestricted } }

namespace Disguise

/-- The primary files as they are without a restriction. A caller that is no superuser then must not
find a bundle with restricted files. -/
def opened (superuser : Bool) : Disguise where
  sink := id
  primary := Provider.unrestricted
  Suits := fun _ primary bundle => (∃ files, primary = .memory files true) ∧
    (superuser = false → ∀ q, bundle = some q → q.isRestricted = false)

variable {o : Options} {superuser : Bool} {s : Focus} {α : Type}

/-! ## Files -/

/-- What `a` does to restricted files in memory, `b` does to unrestricted ones; and `a` and `b` are
the same on files that are open to the caller of `b`. -/
structure Opens (superuser : Bool) (a b : FileAction α) : Prop where
  memory (files : FileMap) (host : Host) : match a ⟨.memory files true, host⟩ with
    | .ok v t => ∃ files', t.provider = .memory files' true ∧
        b ⟨.memory files false, host⟩ = .ok v ⟨.memory files' false, t.host⟩
    | .error e t => ∃ files', t.provider = .memory files' true ∧
        b ⟨.memory files false, host⟩ = .error e ⟨.memory files' false, t.host⟩
  access (t : Storage) : (superuser = false → t.provider.isRestricted = false) → b t = a t
  keeps (t : Storage) : Provider.Keeping true t a

theorem checkAccess_eq {restricted : Bool} (h : superuser = false → restricted = false)
    (action target : String) :
    checkAccess restricted superuser action target = checkAccess restricted true action target := by
  cases superuser with
  | true => rfl
  | false =>
    rw [h rfl]
    rfl

theorem opens_read (name : String) : Opens superuser (Provider.read name) (Provider.read name) where
  memory files host := by
    cases hfile : files.get? name with
    | some data =>
      have hread (restricted : Bool) : Provider.read name ⟨.memory files restricted, host⟩ =
          .ok data ⟨.memory files restricted, host⟩ := by
        rw [Provider.read, Stateful.get_bind]
        simp only [hfile]
        rfl
      rw [hread, hread]
      exact ⟨files, rfl, rfl⟩
    | none =>
      have hread (restricted : Bool) : Provider.read name ⟨.memory files restricted, host⟩ =
          .error (.notFound name) ⟨.memory files restricted, host⟩ := by
        rw [Provider.read, Stateful.get_bind]
        simp only [hfile]
        rfl
      rw [hread, hread]
      exact ⟨files, rfl, rfl⟩
  access _ _ := rfl
  keeps _ := Provider.keeping_read name

theorem opens_write (name : String) (data : Bytes) :
    Opens superuser (Provider.write true name data) (Provider.write superuser name data) where
  memory files host := ⟨files.insert name data, rfl, rfl⟩
  access t h := by
    unfold Provider.write
    rw [Stateful.get_bind, Stateful.get_bind, checkAccess_eq h]
  keeps _ := Provider.keeping_write name data

theorem opens_delete (name : String) :
    Opens superuser (Provider.delete true name) (Provider.delete superuser name) where
  memory files host := by
    have hdelete (restricted su : Bool)
        (haccess : checkAccess restricted su "delete" name = .ok ()) :
        Provider.delete su name ⟨.memory files restricted, host⟩ =
          if files.contains name then .ok () ⟨.memory (files.erase name) restricted, host⟩
          else .error (.notFound name) ⟨.memory files restricted, host⟩ := by
      have hcheck : (Provider.check (checkAccess restricted su "delete" name) : FileAction Unit)
          ⟨.memory files restricted, host⟩ = .ok () ⟨.memory files restricted, host⟩ := by
        rw [haccess]
        rfl
      rw [Provider.delete, Stateful.get_bind]
      refine (Stateful.bind_of_ok hcheck _).trans ?_
      dsimp only
      cases files.contains name <;> rfl
    rw [hdelete true true rfl, hdelete false superuser rfl]
    cases files.contains name with
    | true => exact ⟨files.erase name, rfl, rfl⟩
    | false => exact ⟨files, rfl, rfl⟩
  access t h := by
    unfold Provider.delete
    rw [Stateful.get_bind, Stateful.get_bind, checkAccess_eq h]
  keeps _ := Provider.keeping_delete name

theorem opens_list : Opens superuser Provider.list Provider.list where
  memory files _ := ⟨files, rfl, rfl⟩
  access _ _ := rfl
  keeps _ := Provider.keeping_list

theorem opens_runCommand (line : String) :
    Opens superuser (Provider.runCommand true line) (Provider.runCommand superuser line) where
  memory files _ := ⟨files, rfl, rfl⟩
  access t h := by
    unfold Provider.runCommand
    rw [Stateful.get_bind, Stateful.get_bind]
    cases hp : t.provider with
    | memory files restricted => rfl
    | directory d =>
      have hd : superuser = false → d.restricted = false := by rwa [hp] at h
      dsimp only
      rw [checkAccess_eq hd]
  keeps _ := Provider.keeping_runCommand line

theorem opened_onPrimary {a b : FileAction α} (hab : Opens superuser a b)
    (h : (opened superuser).Fits s.world) (huses : s.exec.usesBundle = false) :
    (opened superuser).Mirrors s (Action.onFiles a) (Action.onFiles b) := by
  rcases h with ⟨⟨files, hfiles⟩, hbundle⟩
  have hprovider : Action.provider s = .ok (.memory files true) s := by
    rw [Action.provider_eq_ok_iff, huses]
    exact hfiles
  have hprovider' : Action.provider ((opened superuser).focus s) =
      .ok (.memory files false) ((opened superuser).focus s) := by
    rw [Action.provider_eq_ok_iff, focus_exec, huses]
    exact congrArg Provider.unrestricted hfiles
  have ha := Action.onFiles_of_provider (a := a) hprovider
  have hb := Action.onFiles_of_provider (a := b) hprovider'
  simp only [Focus.withStorage, focus_exec, focus_host, huses, Bool.false_eq_true, if_false]
    at ha hb
  have hmemory := hab.memory files s.world.host
  cases hrun : a ⟨.memory files true, s.world.host⟩ with
  | ok v t =>
    simp only [hrun] at hmemory ha
    rcases hmemory with ⟨files', ht, hrun'⟩
    rw [hrun'] at hb
    rw [ht] at ha
    exact mirrors_of_ok ha ⟨⟨files', rfl⟩, hbundle⟩ hb
  | error e t =>
    simp only [hrun] at hmemory ha
    rcases hmemory with ⟨files', ht, hrun'⟩
    rw [hrun'] at hb
    rw [ht] at ha
    exact mirrors_of_error ha ⟨⟨files', rfl⟩, hbundle⟩ hb

theorem opened_onBundle {a b : FileAction α} (hab : Opens superuser a b)
    (h : (opened superuser).Fits s.world) (huses : s.exec.usesBundle = true) {q : Provider}
    (hq : s.world.bundle = some q) :
    (opened superuser).Mirrors s (Action.onFiles a) (Action.onFiles b) := by
  rcases h with ⟨hfiles, hbundle⟩
  have hopen : superuser = false → q.isRestricted = false := fun hs => hbundle hs q hq
  have hprovider : Action.provider s = .ok q s := by
    rw [Action.provider_eq_ok_iff, huses]
    exact hq
  have hprovider' : Action.provider ((opened superuser).focus s) =
      .ok q ((opened superuser).focus s) := by
    rw [Action.provider_eq_ok_iff, focus_exec, huses]
    exact hq
  have ha := Action.onFiles_of_provider (a := a) hprovider
  have hb := Action.onFiles_of_provider (a := b) hprovider'
  rw [focus_host, hab.access ⟨q, s.world.host⟩ hopen] at hb
  simp only [Focus.withStorage, focus_exec, huses, if_true] at ha hb
  have hkeeps := hab.keeps ⟨q, s.world.host⟩ q (Provider.keeps_refl true ⟨q, s.world.host⟩)
  -- The bundle's files stay as open as they are.
  have hfits (t : Storage) (ht : t.Keeps true q) :
      (opened superuser).Fits { s.world with host := t.host, bundle := some t.provider } := by
    refine ⟨hfiles, ?_⟩
    rintro hs q' ⟨⟩
    exact ht.restricted.trans (hopen hs)
  cases hrun : a ⟨q, s.world.host⟩ with
  | ok v t =>
    rw [hrun] at ha hb
    exact mirrors_of_ok ha (hfits t (hkeeps.of_ok hrun)) hb
  | error e t =>
    rw [hrun] at ha hb
    exact mirrors_of_error ha (hfits t (hkeeps.of_error hrun)) hb

theorem opened_onFiles {a b : FileAction α} (hab : Opens superuser a b)
    (h : (opened superuser).Fits s.world) :
    (opened superuser).Mirrors s (Action.onFiles a) (Action.onFiles b) := by
  cases huses : s.exec.usesBundle with
  | false => exact opened_onPrimary hab h huses
  | true =>
    cases hq : s.world.bundle with
    | some q => exact opened_onBundle hab h huses hq
    | none =>
      -- There are no files to act on, in either run.
      have hnone (t : Focus) (c : FileAction α) (huses : t.exec.usesBundle = true)
          (hq : t.world.bundle = none) :
          Action.onFiles c t = .error (.fault (.io .noBundle)) t := by
        have hprovider : Action.provider t = .error (.fault (.io .noBundle)) t := by
          rw [Action.provider, Stateful.get_bind, huses, hq]
          rfl
        exact Stateful.bind_of_error hprovider _
      exact mirrors_of_error (hnone s a huses hq) h (hnone _ b huses hq)

/-! ## The other places -/

theorem opened_print (h : (opened superuser).Fits s.world) (text : String) :
    (opened superuser).Mirrors s (Guarded.print text) (Guarded.print text) := by
  refine .get ?_
  have hsink : ((opened superuser).focus s).world.sink = s.world.sink := rfl
  rw [hsink]
  cases s.world.sink with
  | none => exact .pure h _
  | some k =>
    dsimp only
    cases k.write text with
    | ok k' =>
      refine Mirrors.set (t := ⟨{ s.world with sink := some k' }, s.exec⟩) ?_
      exact h
    | error p => exact .throw h _

theorem opened_check (ho : o.superuser = true) (h : (opened superuser).Fits s.world)
    (action target : String) :
    (opened superuser).Mirrors s (Action.checkRestricted o action target)
      (Action.checkRestricted { o with superuser } action target) := by
  rcases h with ⟨⟨files, hfiles⟩, hbundle⟩
  have hopen : checkAccess s.world.primary.isRestricted o.superuser action target = .ok () := by
    rw [ho, hfiles]
    rfl
  have hopen' : checkAccess ((opened superuser).focus s).world.primary.isRestricted superuser
      action target = .ok () := by
    have hother : ((opened superuser).focus s).world.primary = .memory files false :=
      congrArg Provider.unrestricted hfiles
    rw [hother]
    rfl
  refine .get ?_
  rw [hopen, hopen']
  have hfits : (opened superuser).Fits s.world := ⟨⟨files, hfiles⟩, hbundle⟩
  exact .pure hfits _

theorem opened_covers (ho : o.superuser = true) : (opened superuser).Covers o superuser where
  print _ text h := opened_print h text
  check _ action target h := opened_check ho h action target
  read _ name h := opened_onFiles (opens_read name) h
  write _ name data h := by
    rw [ho]
    exact opened_onFiles (opens_write name data) h
  delete _ name h := by
    rw [ho]
    exact opened_onFiles (opens_delete name) h
  list _ h := opened_onFiles opens_list h
  runCommand _ line h := by
    rw [ho]
    exact opened_onFiles (opens_runCommand line) h

theorem opened_write (ho : o.superuser = true) (h : (opened superuser).Fits s.world)
    (i : Instruction) :
    (opened superuser).Mirrors s (Action.write i) (Action.write i) := by
  have hannounce (t : Focus) (ht : (opened superuser).Fits t.world) (form : UInt32) (v : Bytes) :
      (opened superuser).Mirrors t (Action.announce form v) (Action.announce form v) := by
    refine .get ?_
    have hsink : ((opened superuser).focus t).world.sink = t.world.sink := rfl
    rw [hsink]
    cases t.world.sink.isSome with
    | false => exact .pure ht _
    | true =>
      refine (Mirrors.ofExcept ht _).bind fun text _ _ hfits => ?_
      cases text with
      | some text => exact (mirrors_print (opened_covers ho) hfits text).return _
      | none => exact .pure hfits _
  rw [Action.write_eq]
  refine (Mirrors.ofExcept h _).bind fun form _ _ hfits => ?_
  refine (mirrors_reading hfits _).bind fun v _ _ hfits => ?_
  split
  · exact (mirrors_emit hfits v).bind fun _ t _ hfits => hannounce t hfits form v
  · exact hannounce _ hfits form v

end Disguise

/-- An execution of a superuser on restricted files in memory is the one on the same files
unrestricted, superuser or not, in whatever order the threads have their turns, if it is the same
order in both. If no thread is detached, the order does not matter. Only the files of a bundle must
be open to the caller there, which those that come packed with a program are. -/
theorem Execution.ofMachine_unrestricted (o : Options) (world : World) (files : FileMap)
    (p : Program) (active : UInt32) (fuel : Nat) (stop superuser : Bool)
    (hbundle : superuser = false → ∀ q, world.bundle = some q → q.isRestricted = false) :
    let restricted := Machine.start o { world with primary := .memory files true } p active
    let free := Machine.start o { world with primary := .memory files false } p active
    Execution.ofMachine { o with superuser } fuel stop free =
        (Execution.ofMachine { o with superuser := true } fuel stop restricted).map
          (Except.map Execution.unrestricted) ∧
      (∀ es, free.play { o with superuser } es =
        (restricted.play { o with superuser := true } es).unrestricted) ∧
      ∀ ns ns' : List Nat,
        (restricted.play { o with superuser := true } (ns.map .turn)).detached = [] →
        (restricted.play { o with superuser := true } (ns.map .turn)).mainEnded = true →
        (free.play { o with superuser } (ns'.map .turn)).mainEnded = true →
          free.play { o with superuser } (ns'.map .turn) =
            (restricted.play { o with superuser := true } (ns.map .turn)).unrestricted := by
  intro restricted free
  have hfits : (Disguise.opened superuser).Fits restricted.world := ⟨⟨files, rfl⟩, hbundle⟩
  have ho : ({ o with superuser := true } : Options).superuser = true := rfl
  have hcovers : (Disguise.opened superuser).Covers { o with superuser := true } superuser :=
    Disguise.opened_covers ho
  have hsequential : restricted.Sequential := Machine.sequential_start _ _ _ _
  refine ⟨?_, fun es => ?_, fun ns ns' hdetached hended hended' => ?_⟩
  · exact Disguise.ofMachine_machine hcovers hfits
      fun _ _ i _ ht _ _ => Disguise.opened_write ho ht i
  · exact Disguise.play_machine hcovers hfits
      fun _ _ _ i _ _ ht _ _ => Disguise.opened_write ho ht i
  · exact Disguise.play_machine_of_sequential hcovers hfits hsequential
      (fun _ _ _ i _ _ ht _ _ => Disguise.opened_write ho ht i) hdetached hended hended'

/-- A program that writes the byte 102 to the file of that name. -/
def Program.writeName : Program :=
  .ofList [⟨0, 2, [[102], [0, 0, 0, 0]]⟩, ⟨1, 47, [[0, 0, 0, 0], [0, 0, 0, 0]]⟩]

theorem Execution.ofMachine_unrestricted_writeName :
    (∀ q, some (Provider.memory ∅ false) = some q → q.isRestricted = false) ∧
      Execution.ofMachine {} 3 false (Machine.start {}
          { primary := .memory ∅ false, bundle := some (.memory ∅ false) } .writeName) =
        (Execution.ofMachine { superuser := true } 3 false (Machine.start {}
          { primary := .memory ∅ true, bundle := some (.memory ∅ false) } .writeName)).map
          (Except.map Execution.unrestricted) ∧
      (Execution.ofMachine { superuser := true } 3 false (Machine.start {}
          { primary := .memory ∅ true, bundle := some (.memory ∅ false) } .writeName)).map
          (Except.map (·.world.primary)) =
        some (.ok (.memory ((∅ : FileMap).insert "f" [102]) true)) := by
  have hbundle : ∀ q, some (Provider.memory ∅ false) = some q → q.isRestricted = false := by
    rintro q ⟨⟩
    rfl
  refine ⟨hbundle, ?_, rfl⟩
  exact (Execution.ofMachine_unrestricted {} { bundle := some (.memory ∅ false) } ∅ .writeName 0 3
    false false fun _ => hbundle).1

end CellMachine
