import CellMachine.OrderedMap
import CellMachine.Proofs.Frame

/-!
# Maps of entry lists

This module proves what the map of a list of entries holds: of the entries with one key the last one
counts. The entries of the map are the list itself if and only if its keys ascend; and where the
entries are read from bytes, only then are the bytes of the map those that were read.
-/

namespace CellMachine.OrderedMap

variable {κ α : Type} [Ord κ] [Std.TransOrd κ]

/-! ## Look-ups -/

theorem get?_insertMany [Std.LawfulEqOrd κ] [DecidableEq κ] (m : OrderedMap κ α)
    (pairs : List (κ × α)) (k : κ) :
    (m.insertMany pairs).get? k =
      ((pairs.filter fun e => e.1 = k).getLast?.map (·.2)).or (m.get? k) := by
  induction pairs generalizing m with
  | nil => rfl
  | cons e pairs ih =>
    have hstep : m.insertMany (e :: pairs) = (m.insert e.1 e.2).insertMany pairs := rfl
    rw [hstep, ih, get?_insert]
    by_cases he : e.1 = k
    · cases h : (pairs.filter fun e => e.1 = k).getLast? <;> simp [he, h, List.getLast?_cons]
    · simp [he, Ne.symm he]

/-- Of the entries with one key the last one counts. -/
theorem get?_ofList [Std.LawfulEqOrd κ] [DecidableEq κ] (pairs : List (κ × α)) (k : κ) :
    (ofList pairs).get? k = (pairs.filter fun e => e.1 = k).getLast?.map (·.2) := by
  rw [ofList, get?_insertMany, get?_empty, Option.or_none]

theorem mem_of_mem_insertMany {m : OrderedMap κ α} {pairs : List (κ × α)} {e : κ × α}
    (h : e ∈ (m.insertMany pairs).toList) : e ∈ m.toList ∨ e ∈ pairs := by
  induction pairs generalizing m with
  | nil => exact .inl h
  | cons first pairs ih =>
    rcases ih (m := m.insert first.1 first.2) h with h | h
    · rcases mem_of_mem_place h with rfl | h
      · exact .inr List.mem_cons_self
      · exact .inl h
    · exact .inr (List.mem_cons_of_mem _ h)

theorem mem_of_mem_ofList {pairs : List (κ × α)} {e : κ × α} (h : e ∈ (ofList pairs).toList) :
    e ∈ pairs :=
  (mem_of_mem_insertMany h).resolve_left List.not_mem_nil

/-! ## Ascending lists -/

theorem place_of_forall_lt {k : κ} {v : α} {l : List (κ × α)}
    (h : ∀ e ∈ l, compare e.1 k = .lt) : place k v l = l ++ [(k, v)] := by
  induction l with
  | nil => rfl
  | cons first rest ih =>
    obtain ⟨hfirst, hrest⟩ := List.forall_mem_cons.1 h
    have hgt : compare k first.1 = .gt := Std.OrientedCmp.gt_of_lt hfirst
    simp [place, hgt, ih hrest]

/-- Entries whose keys go on ascending are put behind the others. -/
theorem toList_insertMany {m : OrderedMap κ α} {pairs : List (κ × α)}
    (h : Ascending (m.toList ++ pairs)) : (m.insertMany pairs).toList = m.toList ++ pairs := by
  induction pairs generalizing m with
  | nil => exact (List.append_nil _).symm
  | cons e pairs ih =>
    have hbelow : ∀ e' ∈ m.toList, compare e'.1 e.1 = .lt := fun e' he' =>
      (List.pairwise_append.1 h).2.2 e' he' e List.mem_cons_self
    have hinsert : (m.insert e.1 e.2).toList = m.toList ++ [e] := place_of_forall_lt hbelow
    have hstep : m.insertMany (e :: pairs) = (m.insert e.1 e.2).insertMany pairs := rfl
    rw [hstep, ih, hinsert, List.append_assoc, List.singleton_append]
    rwa [hinsert, List.append_assoc, List.singleton_append]

omit [Std.TransOrd κ] in
/-- Keys ascend as their images do, under a function that keeps their order. -/
theorem ascending_iff_pairwise {β : Type} [LT β] {f : κ → β}
    (hf : ∀ k k', compare k k' = .lt ↔ f k < f k') {pairs : List (κ × α)} :
    Ascending pairs ↔ (pairs.map fun e => f e.1).Pairwise (· < ·) := by
  rw [List.pairwise_map]
  refine List.Pairwise.iff fun e e' => ?_
  exact hf e.1 e'.1

theorem toList_ofList_eq_iff {pairs : List (κ × α)} :
    (ofList pairs).toList = pairs ↔ Ascending pairs := by
  constructor
  · intro h
    rw [← h]
    exact (ofList pairs).ascending
  · intro h
    exact toList_insertMany (m := empty) h

theorem ofList_toList (m : OrderedMap κ α) : ofList m.toList = m := by
  have hentries := toList_ofList_eq_iff.2 m.ascending
  cases m with
  | mk entries h =>
    cases hmap : ofList entries with
    | mk entries' h' =>
      rw [hmap] at hentries
      obtain rfl : entries' = entries := hentries
      rfl

/-- The map of entries is written like the entries only if their keys ascend. -/
theorem flatMap_ofList_eq_iff {item : Reading (κ × α)} {write : κ × α → Bytes}
    {valid : κ × α → Prop} (hitem : item.Inverts write valid) (hwrite : ∀ e, write e ≠ [])
    {pairs : List (κ × α)} (h : ∀ e ∈ pairs, valid e) :
    (ofList pairs).toList.flatMap write = pairs.flatMap write ↔ Ascending pairs := by
  rw [← toList_ofList_eq_iff]
  constructor
  · exact Reading.eq_of_flatMap_eq hitem hwrite (fun e he => h e (mem_of_mem_ofList he)) h
  · intro hentries
    rw [hentries]

end CellMachine.OrderedMap
