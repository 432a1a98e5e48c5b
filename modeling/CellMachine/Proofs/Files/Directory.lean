import CellMachine.Files.Provider
import CellMachine.Proofs.Files.Path
import CellMachine.Proofs.Stateful

/-!
# Names in a host directory

This module proves that no name leads out of the host directory that it is used in
(`names_stay_inside`): the names that have a path are told exactly, this path lies below the root,
and whatever is done with another name is refused before the host is looked at.
-/

namespace CellMachine

namespace HostDirectory

variable {d : HostDirectory} {action name path : String} {superuser : Bool}

theorem resolve_of_descends (h : Path.Descends name) :
    d.resolve action name = .ok (d.root ++ Path.separator d.root ++ name) := by
  rw [resolve, if_pos (Path.staysInside_iff.2 h), Path.join_eq h.2.1]

theorem resolve_of_not_descends (h : ¬Path.Descends name) :
    d.resolve action name = .error (.permissionDenied (.outside action name d.root)) := by
  rw [resolve, if_neg (mt Path.staysInside_iff.1 h)]

theorem resolve_eq_ok_iff :
    d.resolve action name = .ok path ↔
      Path.Descends name ∧ path = d.root ++ Path.separator d.root ++ name := by
  by_cases h : Path.Descends name
  · simp [resolve_of_descends h, h, eq_comm]
  · simp [resolve_of_not_descends h, h]

/-! ## Refusals -/

/-- Why a change is refused to a name that has no path: for want of the right to change anything, or
else for the name. -/
def refusal (d : HostDirectory) (superuser : Bool) (action name : String) : Refusal :=
  if d.restricted && !superuser then .restricted action name else .outside action name d.root

/-- The action on the directory is refused and changes nothing. The host may be any, so that nothing
of it has been looked at. -/
def Refuses (d : HostDirectory) {α : Type} (a : FileAction α) (why : Refusal) : Prop :=
  ∀ host : Host, a ⟨.directory d, host⟩ = .error (.permissionDenied why) ⟨.directory d, host⟩

theorem refuses_read (h : ¬Path.Descends name) :
    d.Refuses (Provider.read name) (.outside "read" name d.root) := by
  intro host
  simp only [Provider.read, Stateful.get_bind, resolve_of_not_descends h]
  rfl

/-- A change to a name without a path is refused at one of the two checks in front of it. -/
theorem refuses_change (h : ¬Path.Descends name) {α : Type} (k : String → FileAction α) :
    d.Refuses (do
      Provider.check (checkAccess d.restricted superuser action name)
      k (← Provider.check (d.resolve action name))) (d.refusal superuser action name) := by
  intro host
  rw [resolve_of_not_descends h, refusal, checkAccess]
  cases d.restricted && !superuser <;> rfl

theorem refuses_write (h : ¬Path.Descends name) (data : Bytes) :
    d.Refuses (Provider.write superuser name data) (d.refusal superuser "write" name) := by
  intro host
  simp only [Provider.write, Stateful.get_bind]
  exact refuses_change h _ host

theorem refuses_delete (h : ¬Path.Descends name) :
    d.Refuses (Provider.delete superuser name) (d.refusal superuser "delete" name) := by
  intro host
  simp only [Provider.delete, Stateful.get_bind]
  exact refuses_change h _ host

/-! ## Names and paths -/

/-- No name leads out of the root. A name has a path if and only if it is not empty, does not begin
with a slash and no segment of it goes up. The path is the root followed by the name, and its steps
are those of the root with nothing but names behind them, so the steps of the root are the first
ones. Reading, writing and deleting under any other name is refused whatever the host is, and
changes nothing. -/
theorem names_stay_inside (d : HostDirectory) (name : String) :
    (∀ action, (∃ path, d.resolve action name = .ok path) ↔
      name ≠ "" ∧ name.toList.head? ≠ some '/' ∧ ".." ∉ Path.segments name) ∧
    (∀ action path, d.resolve action name = .ok path →
      path = d.root ++ Path.separator d.root ++ name ∧
      Path.steps path = Path.steps d.root ++ (Path.names name).map .normal ∧
      (∀ n ∈ Path.names name, Path.IsName n) ∧
      Path.components d.root <+: Path.components path) ∧
    ∀ superuser data,
      ((∀ path, d.resolve "read" name ≠ .ok path) →
        d.Refuses (Provider.read name) (.outside "read" name d.root)) ∧
      ((∀ path, d.resolve "write" name ≠ .ok path) →
        d.Refuses (Provider.write superuser name data) (d.refusal superuser "write" name)) ∧
      ((∀ path, d.resolve "delete" name ≠ .ok path) →
        d.Refuses (Provider.delete superuser name) (d.refusal superuser "delete" name)) := by
  have hresolves (action : String) :
      (∃ path, d.resolve action name = .ok path) ↔ Path.Descends name := by
    simp only [resolve_eq_ok_iff, exists_and_left, exists_eq, and_true]
  have hfails {action : String} (h : ∀ path, d.resolve action name ≠ .ok path) :
      ¬Path.Descends name :=
    fun hname => not_exists.2 h ((hresolves action).2 hname)
  refine ⟨hresolves, ?_, fun superuser data => ⟨?_, ?_, ?_⟩⟩
  · -- The root is followed by the name and not replaced by it, since the name is not absolute.
    intro action path h
    obtain ⟨hname, hpath⟩ := resolve_eq_ok_iff.1 h
    have hjoin : path = Path.join d.root name := by rw [hpath, Path.join_eq hname.2.1]
    refine ⟨hpath, ?_, fun _ => Path.isName_of_mem_names hname, ?_⟩
    · rw [hjoin, Path.steps_join hname]
    · rw [hjoin]
      exact Path.components_prefix_join hname.2.1
  · exact fun h => refuses_read (hfails h)
  · exact fun h => refuses_write (hfails h) data
  · exact fun h => refuses_delete (hfails h)

/-- Dots within a name, repeated slashes and a single dot, behind a root that goes up itself; a name
that goes up in the middle is refused, and a change to it is refused for want of superuser rights
before that. -/
theorem names_stay_inside_dots :
    let d : HostDirectory := { root := "/srv/../w", restricted := true }
    Path.steps "/srv/../w/./a..b//.../.c" =
      [.root, .normal "srv", .parent, .normal "w", .normal "a..b", .normal "...", .normal ".c"] ∧
    d.Refuses (Provider.read "a/../b") (.outside "read" "a/../b" "/srv/../w") ∧
    d.Refuses (Provider.write false "a/../b" [1]) (.restricted "write" "a/../b") := by
  intro d
  obtain ⟨-, hpath, -⟩ := names_stay_inside d "./a..b//.../.c"
  obtain ⟨-, -, hrefused⟩ := names_stay_inside d "a/../b"
  have hresolve : d.resolve "read" "./a..b//.../.c" = .ok "/srv/../w/./a..b//.../.c" := by
    decide +kernel
  have hread : d.resolve "read" "a/../b" =
      .error (.permissionDenied (.outside "read" "a/../b" "/srv/../w")) := by
    decide +kernel
  have hwrite : d.resolve "write" "a/../b" =
      .error (.permissionDenied (.outside "write" "a/../b" "/srv/../w")) := by
    decide +kernel
  refine ⟨?_, (hrefused false [1]).1 ?_, (hrefused false [1]).2.1 ?_⟩
  · rw [(hpath _ _ hresolve).2.1]
    decide +kernel
  · rw [hread]
    nofun
  · rw [hwrite]
    nofun

end HostDirectory

end CellMachine
