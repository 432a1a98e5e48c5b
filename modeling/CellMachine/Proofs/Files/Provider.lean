import CellMachine.Files.Provider
import CellMachine.Proofs.Stateful

/-!
# Restricted files

This module proves what the actions on stored files may do to the provider: whether it is restricted
never changes, and without superuser rights a restricted provider does not change at all. The host
system is another matter, since the files of a host directory are changed in the host.
-/

namespace CellMachine

/-- The provider is still `p`, as far as that is certain with superuser rights or without them. -/
structure Storage.Keeps (superuser : Bool) (p : Provider) (s : Storage) : Prop where
  restricted : s.provider.isRestricted = p.isRestricted
  provider : superuser = false → p.isRestricted = true → s.provider = p

theorem checkAccess_eq_ok_iff {restricted superuser : Bool} {action target : String} {u : Unit} :
    checkAccess restricted superuser action target = .ok u ↔
      (restricted = true → superuser = true) := by
  unfold checkAccess
  cases restricted <;> cases superuser <;> simp

namespace Provider

open Stateful

variable {α : Type} {superuser : Bool} {p : Provider} {s : Storage}

theorem keeps_refl (superuser : Bool) (s : Storage) : s.Keeps superuser s.provider :=
  ⟨rfl, fun _ _ => rfl⟩

/-- What an action ensures about the provider, whatever its value. -/
def Keeping (superuser : Bool) (s : Storage) (a : FileAction α) : Prop :=
  ∀ p, s.Keeps superuser p → Maintains (Storage.Keeps superuser p) s a

theorem ensures_check {I : Storage → Prop} (hs : I s) (r : Except ProviderError α) :
    Ensures I s (check r) fun v t => t = s ∧ r = .ok v := by
  cases r with
  | ok v => exact ensures_pure ⟨rfl, rfl⟩
  | error e => exact ensures_throw hs e

theorem keeping_change (target : String) (r : Except IoError Host) :
    Keeping superuser s (change target r) := by
  intro p hs
  cases r with
  | ok h => exact ensures_modify ⟨hs.restricted, hs.provider⟩
  | error e => exact ensures_throw hs _

theorem keeping_read (name : String) : Keeping superuser s (read name) := by
  intro p hs
  refine ensures_get ?_
  cases s.provider with
  | memory files restricted =>
    cases hfile : files.get? name with
    | some data =>
      simp only [hfile]
      exact ensures_pure hs
    | none =>
      simp only [hfile]
      exact ensures_throw hs _
  | directory d =>
    refine (ensures_check hs _).bind ?_
    rintro path t ⟨rfl, -⟩
    cases t.host.readFile path with
    | ok data => exact ensures_pure hs
    | error e => exact ensures_throw hs _

theorem keeping_list : Keeping superuser s list := by
  intro p hs
  refine ensures_get ?_
  cases s.provider with
  | memory files restricted => exact ensures_pure hs
  | directory d =>
    cases hnames : s.host.listFiles d.root with
    | ok names =>
      simp only [hnames]
      exact ensures_pure hs
    | error e =>
      simp only [hnames]
      exact ensures_throw hs _

theorem keeps_host {q : Provider} (hs : s.Keeps superuser p) (hp : s.provider = q) (h : Host) :
    Storage.Keeps superuser p ⟨q, h⟩ := by
  subst hp
  exact ⟨hs.restricted, hs.provider⟩

/-- Files in memory are only replaced for a caller that has passed the check of its access. -/
theorem keeps_memory {files files' : FileMap} {restricted : Bool} {action target : String}
    {u : Unit} (hs : s.Keeps superuser p) (hp : s.provider = .memory files restricted)
    (hcheck : checkAccess s.provider.isRestricted superuser action target = .ok u) :
    Storage.Keeps superuser p { s with provider := .memory files' restricted } := by
  have haccess := checkAccess_eq_ok_iff.1 hcheck
  have hrestricted : restricted = p.isRestricted := by
    rw [← hs.restricted, hp]
    rfl
  refine ⟨hrestricted, ?_⟩
  intro hsuperuser hp'
  rw [haccess (hs.restricted.trans hp')] at hsuperuser
  cases hsuperuser

theorem keeping_write (name : String) (data : Bytes) :
    Keeping superuser s (write superuser name data) := by
  intro p hs
  refine ensures_get ((ensures_check hs _).bind ?_)
  rintro u t ⟨rfl, hcheck⟩
  cases hp : t.provider with
  | memory files restricted => exact ensures_set (keeps_memory hs hp hcheck)
  | directory d =>
    refine (ensures_check hs _).bind ?_
    rintro path t' ⟨rfl, -⟩
    -- From here on only the host is changed.
    cases Path.parent? path with
    | none => exact ensures_get (keeping_change _ _ p hs)
    | some up =>
      dsimp only
      cases (Host.makeDirectories up).run t'.host with
      | ok v h => exact (ensures_set (keeps_host hs hp h)).bind fun _ _ ht =>
          ensures_get (keeping_change _ _ p ht)
      | error e h => exact (ensures_set (keeps_host hs hp h)).bind fun _ _ ht => ensures_throw ht _

theorem keeping_delete (name : String) : Keeping superuser s (delete superuser name) := by
  intro p hs
  refine ensures_get ((ensures_check hs _).bind ?_)
  rintro u t ⟨rfl, hcheck⟩
  cases hp : t.provider with
  | memory files restricted =>
    cases hfile : files.contains name with
    | true =>
      simp only [hfile, if_true]
      exact ensures_set (keeps_memory hs hp hcheck)
    | false =>
      simp only [hfile, Bool.false_eq_true, if_false]
      exact ensures_throw hs _
  | directory d =>
    refine (ensures_check hs _).bind ?_
    rintro path t' ⟨rfl, -⟩
    exact keeping_change _ _ p hs

theorem keeping_runCommand (line : String) :
    Keeping superuser s (runCommand superuser line) := by
  intro p hs
  refine ensures_get ?_
  cases hp : s.provider with
  | memory files restricted => exact ensures_throw hs _
  | directory d =>
    dsimp only
    cases d.allowsCommands with
    | false => exact hs
    | true =>
      refine (ensures_check hs _).bind ?_
      rintro u t ⟨rfl, -⟩
      -- The command changes the host, and then its status is all that is left.
      split
      · refine (ensures_check hs _).bind ?_
        rintro cwd t' ⟨rfl, -⟩
        exact keeps_host hs hp _
      · exact hs
      · exact hs

end Provider

end CellMachine
