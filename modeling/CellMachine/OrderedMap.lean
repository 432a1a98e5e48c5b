/-!
# Ordered maps

A finite map kept as the list of its entries in strictly ascending key order. The order is part of
the type, so a map has one representation: two maps that answer every look-up alike are equal
(`OrderedMap.ext_get?`), and `toList` enumerates the entries in the order in which they are listed,
dumped and snapshot.

The look-up of each operation is given by one equation (`get?_insert`, `get?_erase`,
`get?_retain`), which is all that later modules use.
-/

namespace CellMachine

def Ascending {κ α : Type} [Ord κ] (entries : List (κ × α)) : Prop :=
  entries.Pairwise fun a b => compare a.1 b.1 = .lt

instance {κ α : Type} [Ord κ] (entries : List (κ × α)) : Decidable (Ascending entries) :=
  inferInstanceAs (Decidable (entries.Pairwise fun a b => compare a.1 b.1 = .lt))

/-- A finite map from `κ` to `α`, held as its entries in ascending key order. -/
structure OrderedMap (κ α : Type) [Ord κ] where
  toList : List (κ × α)
  ascending : Ascending toList

namespace OrderedMap

variable {κ α : Type} [Ord κ]

/-! ## Entry lists -/

def lookup (k : κ) : List (κ × α) → Option α
  | [] => none
  | (k', v) :: rest => if compare k k' = .eq then some v else lookup k rest

/-- Put `v` at `k`, in place of the value that was there. -/
def place (k : κ) (v : α) : List (κ × α) → List (κ × α)
  | [] => [(k, v)]
  | (k', v') :: rest =>
    match compare k k' with
    | .lt => (k, v) :: (k', v') :: rest
    | .eq => (k, v) :: rest
    | .gt => (k', v') :: place k v rest

theorem mem_of_mem_place {k : κ} {v : α} {e : κ × α} {l : List (κ × α)}
    (h : e ∈ place k v l) : e = (k, v) ∨ e ∈ l := by
  induction l with
  | nil => simpa [place] using h
  | cons hd tl ih =>
    simp only [place] at h
    split at h
    · simpa using h
    · rcases List.mem_cons.1 h with rfl | h
      · exact .inl rfl
      · exact .inr (List.mem_cons_of_mem _ h)
    · rcases List.mem_cons.1 h with rfl | h
      · exact .inr List.mem_cons_self
      · exact (ih h).imp id (List.mem_cons_of_mem _)

theorem ascending_place [Std.TransOrd κ] (k : κ) (v : α) {l : List (κ × α)} (h : Ascending l) :
    Ascending (place k v l) := by
  induction l with
  | nil => simp [place, Ascending]
  | cons hd tl ih =>
    obtain ⟨k', v'⟩ := hd
    have htl := List.pairwise_cons.1 h
    simp only [place]
    split
    · rename_i hlt
      refine List.pairwise_cons.2 ⟨fun e he => ?_, h⟩
      rcases List.mem_cons.1 he with rfl | he
      · exact hlt
      · exact Std.TransCmp.lt_trans hlt (htl.1 e he)
    · rename_i heq
      refine List.pairwise_cons.2 ⟨fun e he => ?_, htl.2⟩
      exact Std.TransCmp.lt_of_eq_of_lt heq (htl.1 e he)
    · rename_i hgt
      refine List.pairwise_cons.2 ⟨fun e he => ?_, ih htl.2⟩
      rcases mem_of_mem_place he with rfl | he
      · exact Std.OrientedCmp.lt_of_gt hgt
      · exact htl.1 e he

/-! ## Operations -/

def empty : OrderedMap κ α := ⟨[], List.Pairwise.nil⟩

instance : EmptyCollection (OrderedMap κ α) := ⟨empty⟩

instance : Inhabited (OrderedMap κ α) := ⟨empty⟩

def get? (m : OrderedMap κ α) (k : κ) : Option α := lookup k m.toList

def contains (m : OrderedMap κ α) (k : κ) : Bool := (m.get? k).isSome

def keys (m : OrderedMap κ α) : List κ := m.toList.map (·.1)

def size (m : OrderedMap κ α) : Nat := m.toList.length

def isEmpty (m : OrderedMap κ α) : Bool := m.toList.isEmpty

def insert [Std.TransOrd κ] (m : OrderedMap κ α) (k : κ) (v : α) : OrderedMap κ α :=
  ⟨place k v m.toList, ascending_place k v m.ascending⟩

def retain (m : OrderedMap κ α) (p : κ → Bool) : OrderedMap κ α :=
  ⟨m.toList.filter (p ·.1), m.ascending.filter _⟩

def erase (m : OrderedMap κ α) (k : κ) : OrderedMap κ α :=
  m.retain fun k' => compare k k' != .eq

/-- Insert every pair in order: of two pairs with one key the later stays. -/
def insertMany [Std.TransOrd κ] (m : OrderedMap κ α) (pairs : List (κ × α)) : OrderedMap κ α :=
  pairs.foldl (fun m e => m.insert e.1 e.2) m

/-- The map of a list of pairs: of two pairs with one key the later stays. -/
def ofList [Std.TransOrd κ] (pairs : List (κ × α)) : OrderedMap κ α := empty.insertMany pairs

instance [DecidableEq κ] [DecidableEq α] : DecidableEq (OrderedMap κ α) := fun a b =>
  decidable_of_iff (a.toList = b.toList) (by cases a; cases b; simp)

/-! ## Look-ups -/

@[simp] theorem get?_empty (k : κ) : (empty : OrderedMap κ α).get? k = none := rfl

theorem lookup_place [Std.TransOrd κ] [Std.LawfulEqOrd κ] (k k' : κ) (v : α) (l : List (κ × α)) :
    lookup k' (place k v l) = if compare k' k = .eq then some v else lookup k' l := by
  induction l with
  | nil => simp [place, lookup]
  | cons hd tl ih =>
    obtain ⟨j, w⟩ := hd
    simp only [place]
    cases hk : compare k j with
    | lt => simp [lookup]
    | eq =>
      obtain rfl := Std.LawfulEqCmp.eq_of_compare hk
      by_cases h : compare k' k = .eq <;> simp [lookup, h]
    | gt =>
      simp only [lookup, ih]
      by_cases h : compare k' j = .eq
      · obtain rfl := Std.LawfulEqCmp.eq_of_compare h
        have : compare k' k = .lt := Std.OrientedCmp.lt_of_gt hk
        simp [this]
      · simp [h]

theorem get?_insert [Std.TransOrd κ] [Std.LawfulEqOrd κ] [DecidableEq κ]
    (m : OrderedMap κ α) (k k' : κ) (v : α) :
    (m.insert k v).get? k' = if k' = k then some v else m.get? k' := by
  have h := lookup_place k k' v m.toList
  simp only [Std.compare_eq_iff_eq] at h
  exact h

@[simp] theorem get?_insert_self [Std.TransOrd κ] [Std.LawfulEqOrd κ] [DecidableEq κ]
    (m : OrderedMap κ α) (k : κ) (v : α) : (m.insert k v).get? k = some v := by
  simp [get?_insert]

theorem lookup_filter [Std.TransOrd κ] [Std.LawfulEqOrd κ] (p : κ → Bool) (k : κ)
    (l : List (κ × α)) :
    lookup k (l.filter (p ·.1)) = if p k then lookup k l else none := by
  induction l with
  | nil => simp [lookup]
  | cons hd tl ih =>
    obtain ⟨j, w⟩ := hd
    by_cases hj : p j
    · simp only [List.filter_cons, hj, if_true, lookup, ih]
      by_cases h : compare k j = .eq
      · obtain rfl := Std.LawfulEqCmp.eq_of_compare h
        simp [hj]
      · simp [h]
    · by_cases h : compare k j = .eq
      · obtain rfl := Std.LawfulEqCmp.eq_of_compare h
        simp [hj, ih]
      · simp [hj, lookup, ih, h]

theorem get?_retain [Std.TransOrd κ] [Std.LawfulEqOrd κ] (m : OrderedMap κ α) (p : κ → Bool)
    (k : κ) : (m.retain p).get? k = if p k then m.get? k else none :=
  lookup_filter p k m.toList

theorem get?_erase [Std.TransOrd κ] [Std.LawfulEqOrd κ] [DecidableEq κ]
    (m : OrderedMap κ α) (k k' : κ) :
    (m.erase k).get? k' = if k' = k then none else m.get? k' := by
  rw [erase, get?_retain]
  by_cases h : k' = k
  · simp [h]
  · have : compare k k' ≠ .eq := fun e => h (Std.LawfulEqCmp.eq_of_compare e).symm
    simp [h, this]

/-! ## One representation per map -/

theorem lookup_eq_none_of_lt [Std.TransOrd κ] {k : κ} {l : List (κ × α)}
    (h : ∀ e ∈ l, compare k e.1 = .lt) : lookup k l = none := by
  induction l with
  | nil => rfl
  | cons hd tl ih =>
    have hd' := h hd List.mem_cons_self
    simp [lookup, hd', ih fun e he => h e (List.mem_cons_of_mem _ he)]

theorem eq_of_lookup_eq [Std.TransOrd κ] [Std.LawfulEqOrd κ] {l₁ l₂ : List (κ × α)}
    (h₁ : Ascending l₁) (h₂ : Ascending l₂) (h : ∀ k, lookup k l₁ = lookup k l₂) : l₁ = l₂ := by
  induction l₁ generalizing l₂ with
  | nil =>
    cases l₂ with
    | nil => rfl
    | cons e _ => simpa [lookup] using h e.1
  | cons a as ih =>
    obtain ⟨ha, has⟩ := List.pairwise_cons.1 h₁
    cases l₂ with
    | nil => simpa [lookup] using h a.1
    | cons b bs =>
      obtain ⟨hb, hbs⟩ := List.pairwise_cons.1 h₂
      have hla := h a.1
      have hlb := h b.1
      simp only [lookup, Std.ReflOrd.compare_self, if_true] at hla hlb
      cases hab : compare a.1 b.1 with
      | lt =>
        rw [lookup_eq_none_of_lt (fun e he => Std.TransCmp.lt_trans hab (hb e he))] at hla
        simp [hab] at hla
      | gt =>
        have hba : compare b.1 a.1 = .lt := Std.OrientedCmp.lt_of_gt hab
        rw [lookup_eq_none_of_lt (fun e he => Std.TransCmp.lt_trans hba (ha e he))] at hlb
        simp [hba] at hlb
      | eq =>
        have hkey := Std.LawfulEqCmp.eq_of_compare hab
        simp only [hab, if_true, Option.some.injEq] at hla
        obtain rfl : a = b := Prod.ext hkey hla
        congr 1
        refine ih has hbs fun k => ?_
        have hk := h k
        simp only [lookup] at hk
        by_cases hka : compare k a.1 = .eq
        · obtain rfl := Std.LawfulEqCmp.eq_of_compare hka
          rw [lookup_eq_none_of_lt ha, lookup_eq_none_of_lt hb]
        · simpa [hka] using hk

/-- Maps with the same look-ups are the same map. -/
theorem ext_get? [Std.TransOrd κ] [Std.LawfulEqOrd κ] {m₁ m₂ : OrderedMap κ α}
    (h : ∀ k, m₁.get? k = m₂.get? k) : m₁ = m₂ := by
  cases m₁ with
  | mk l₁ h₁ =>
    cases m₂ with
    | mk l₂ h₂ =>
      obtain rfl := eq_of_lookup_eq h₁ h₂ h
      rfl

end OrderedMap

end CellMachine
