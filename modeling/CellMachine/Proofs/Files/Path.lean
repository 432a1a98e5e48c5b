import CellMachine.Files.Path
import CellMachine.Proofs.Text.Fields
import Mathlib.Data.List.Basic

/-!
# Paths that stay inside

This module proves which texts lead down from where they start, and where such a text leads when it
follows the path of a directory: the steps of the directory come first, and behind them are names
only. So the steps of the directory are the first ones of the whole path, whatever the text is.
-/

namespace CellMachine.Path

variable {base path segment : String}

/-! ## Segments -/

theorem segments_ne_nil (path : String) : segments path ≠ [] := by
  rw [segments, Ne, List.map_eq_nil_iff]
  exact Text.fields_ne_nil _ _

theorem not_mem_of_mem_segments (h : segment ∈ segments path) : '/' ∉ segment.toList := by
  obtain ⟨field, hfield, rfl⟩ := List.mem_map.1 h
  rw [String.toList_ofList]
  exact Text.not_mem_of_mem_fields hfield

theorem segments_append_slash (base path : String) :
    segments (base ++ "/" ++ path) = segments base ++ segments path := by
  have hslash : (base ++ "/" ++ path).toList = base.toList ++ '/' :: path.toList := by simp
  rw [segments, hslash, Text.fields_append_separator, List.map_append, segments, segments]

/-! ## Steps -/

theorem component?_eq_some_iff {c : Component} :
    component? segment = some c ↔
      segment = ".." ∧ c = .parent ∨
        (segment ≠ "" ∧ segment ≠ "." ∧ segment ≠ "..") ∧ c = .normal segment := by
  unfold component?
  split
  · rename_i hidle
    rcases hidle with rfl | rfl <;> simp
  · rename_i hidle
    obtain ⟨hempty, hdot⟩ := not_or.1 hidle
    split
    · rename_i hup
      simp [hup, eq_comm (b := c)]
    · rename_i hup
      simp [hempty, hdot, hup, eq_comm (b := c)]

/-! ## Leading down -/

/-- A path leads down from where it starts, step by step: it is not empty, does not begin with a
slash, and no segment goes up. -/
def Descends (path : String) : Prop :=
  path ≠ "" ∧ path.toList.head? ≠ some '/' ∧ ".." ∉ segments path

theorem leadsOut_of_mem_start {c : Component} (h : c ∈ start path) :
    c.leadsOut = true ↔ path.toList.head? = some '/' := by
  unfold start isAbsolute at h
  split at h
  · rename_i habsolute
    rw [List.mem_singleton.1 h]
    simpa [Component.leadsOut] using habsolute
  · rename_i hrelative
    split at h
    · rw [List.mem_singleton.1 h]
      simpa [Component.leadsOut] using hrelative
    · cases h

theorem exists_leadsOut_iff (path : String) :
    (∃ c ∈ components path, c.leadsOut = true) ↔
      path.toList.head? = some '/' ∨ ".." ∈ segments path := by
  constructor
  · rintro ⟨c, hc, hout⟩
    rcases List.mem_append.1 hc with hstart | hsegment
    · exact .inl ((leadsOut_of_mem_start hstart).1 hout)
    · obtain ⟨segment, hmem, hsome⟩ := List.mem_filterMap.1 hsegment
      rcases component?_eq_some_iff.1 hsome with ⟨rfl, -⟩ | ⟨-, rfl⟩
      · exact .inr hmem
      · cases hout
  · rintro (habsolute | hup)
    · -- What comes before the segments is the root directory of an absolute path.
      have hroot : start path = [.root] := if_pos (decide_eq_true habsolute)
      exact ⟨.root, List.mem_append_left _ (hroot ▸ List.mem_singleton_self _), rfl⟩
    · have hparent : component? ".." = some .parent := rfl
      exact ⟨.parent, List.mem_append_right _ (List.mem_filterMap.2 ⟨"..", hup, hparent⟩), rfl⟩

theorem staysInside_iff : staysInside path = true ↔ Descends path := by
  have hout := exists_leadsOut_iff path
  rw [← List.any_eq_true] at hout
  rw [staysInside, Bool.and_eq_true, Bool.not_eq_true', Bool.not_eq_true', ← Bool.not_eq_true,
    ← Bool.not_eq_true, hout, String.isEmpty_iff, not_or, Descends]

/-! ## Names -/

def IsName (segment : String) : Prop :=
  segment ≠ "" ∧ segment ≠ "." ∧ segment ≠ ".." ∧ '/' ∉ segment.toList

def names (path : String) : List String :=
  (segments path).filter fun segment => segment ≠ "" ∧ segment ≠ "."

theorem isName_of_mem_names (h : Descends path) (hmem : segment ∈ names path) :
    IsName segment := by
  obtain ⟨hsegment, hleads⟩ := List.mem_filter.1 hmem
  obtain ⟨hempty, hdot⟩ := of_decide_eq_true hleads
  refine ⟨hempty, hdot, ?_, not_mem_of_mem_segments hsegment⟩
  rintro rfl
  exact h.2.2 hsegment

theorem filterMap_component? {segs : List String} (h : ".." ∉ segs) :
    segs.filterMap component? =
      (segs.filter fun segment => segment ≠ "" ∧ segment ≠ ".").map .normal := by
  induction segs with
  | nil => rfl
  | cons segment segs ih =>
    obtain ⟨hup, hsegs⟩ := List.ne_and_not_mem_of_not_mem_cons h
    by_cases hidle : segment = "" ∨ segment = "."
    · have hnone : component? segment = none := if_pos hidle
      have hskip : ¬(segment ≠ "" ∧ segment ≠ ".") := by rwa [← not_or, not_not]
      rw [List.filterMap_cons_none hnone, ih hsegs, List.filter_cons_of_neg (by simpa using hskip)]
    · have hleads : segment ≠ "" ∧ segment ≠ "." := not_or.1 hidle
      have hsome : component? segment = some (.normal segment) :=
        component?_eq_some_iff.2 (.inr ⟨⟨hleads.1, hleads.2, Ne.symm hup⟩, rfl⟩)
      rw [List.filterMap_cons_some hsome, ih hsegs, List.filter_cons_of_pos (by simpa using hleads),
        List.map_cons]

/-! ## A path behind another one -/

def separator (base : String) : String :=
  if base = "" ∨ base.toList.getLast? = some '/' then "" else "/"

theorem join_eq (h : path.toList.head? ≠ some '/') :
    join base path = base ++ separator base ++ path := by
  have hrelative : isAbsolute path = false := decide_eq_false h
  rw [join, separator, hrelative, Bool.false_or]
  by_cases hempty : base = ""
  · simp [hempty]
  · by_cases hslash : base.toList.getLast? = some '/'
    · simp [hempty, hslash]
    · simp [hempty, hslash]

/-- A path behind one that is not empty comes behind a slash, which may be the last one of the
first path; the steps of the first path are those before this slash. -/
theorem exists_join_eq_append_slash (hbase : base ≠ "") (h : path.toList.head? ≠ some '/') :
    ∃ front, join base path = front ++ "/" ++ path ∧
      (segments front).head? = (segments base).head? ∧
      (segments front).filterMap component? = (segments base).filterMap component? := by
  rw [join_eq h]
  by_cases hslash : base.toList.getLast? = some '/'
  · -- The slash cuts an empty segment off, which makes no step.
    obtain ⟨front, hfront⟩ := List.getLast?_eq_some_iff.1 hslash
    have hbase' : base = String.ofList front ++ "/" := by
      rw [← String.toList_inj, hfront]
      simp
    have hsegments : segments base = segments (String.ofList front) ++ [""] := by
      have happend := segments_append_slash (String.ofList front) ""
      rwa [String.append_empty, ← hbase'] at happend
    refine ⟨String.ofList front, ?_, ?_, ?_⟩
    · rw [separator, if_pos (.inr hslash), String.append_empty, ← hbase']
    · rw [hsegments, List.head?_append_of_ne_nil _ (segments_ne_nil _)]
    · rw [hsegments, List.filterMap_append]
      simp [component?]
  · refine ⟨base, ?_, rfl, rfl⟩
    rw [separator, if_neg (not_or.2 ⟨hbase, hslash⟩)]

theorem components_join (hbase : base ≠ "") (h : path.toList.head? ≠ some '/') :
    components (join base path) = components base ++ (segments path).filterMap component? := by
  obtain ⟨front, hjoin, hhead, hsteps⟩ := exists_join_eq_append_slash hbase h
  have habsolute : isAbsolute (join base path) = isAbsolute base := by
    have hne : base.toList ≠ [] := by simpa using hbase
    rw [join_eq h, isAbsolute, isAbsolute, String.append_assoc, String.toList_append,
      List.head?_append_of_ne_nil _ hne]
  have hstart : start (join base path) = start base := by
    rw [start, start, habsolute, hjoin, segments_append_slash,
      List.head?_append_of_ne_nil _ (segments_ne_nil _), hhead]
  calc
    components (join base path)
        = start base ++ (segments (front ++ "/" ++ path)).filterMap component? := by
          rw [components, hstart, hjoin]
    _ = start base ++ ((segments front).filterMap component? ++
          (segments path).filterMap component?) := by
          rw [segments_append_slash, List.filterMap_append]
    _ = components base ++ (segments path).filterMap component? := by
          rw [hsteps, components, List.append_assoc]

/-- The steps of a path without the single dot that it may start with. -/
def steps (path : String) : List Component := (components path).filter (· ≠ .current)

theorem filter_filterMap_component? (segs : List String) :
    (segs.filterMap component?).filter (· ≠ .current) = segs.filterMap component? := by
  refine List.filter_eq_self.2 fun c hc => decide_eq_true ?_
  obtain ⟨segment, -, hsome⟩ := List.mem_filterMap.1 hc
  rcases component?_eq_some_iff.1 hsome with ⟨-, rfl⟩ | ⟨-, rfl⟩ <;> exact Component.noConfusion

theorem steps_of_relative (h : path.toList.head? ≠ some '/') :
    steps path = (segments path).filterMap component? := by
  have hrelative : isAbsolute path = false := decide_eq_false h
  have hstart : (start path).filter (· ≠ .current) = [] := by
    rw [start, hrelative, if_neg Bool.false_ne_true]
    split <;> rfl
  rw [steps, components, List.filter_append, hstart, filter_filterMap_component?, List.nil_append]

/-- A path that leads down adds its names to the steps of the path that it follows. -/
theorem steps_join (h : Descends path) :
    steps (join base path) = steps base ++ (names path).map .normal := by
  obtain ⟨-, hrelative, hup⟩ := h
  rw [names, ← filterMap_component? hup]
  by_cases hbase : base = ""
  · -- Nothing is in front, and a dot that the path starts with is a step, which is left out.
    have hjoin : join "" path = path := by simp [join]
    rw [hbase, hjoin, steps_of_relative hrelative]
    rfl
  · rw [steps, components_join hbase hrelative, List.filter_append, filter_filterMap_component?,
      steps]

theorem components_prefix_join (h : path.toList.head? ≠ some '/') :
    components base <+: components (join base path) := by
  by_cases hbase : base = ""
  · rw [hbase]
    exact List.nil_prefix
  · rw [components_join hbase h]
    exact List.prefix_append _ _

end CellMachine.Path
