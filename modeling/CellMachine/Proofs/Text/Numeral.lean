import CellMachine.Text.Numeral

/-!
# Reading decimal numerals

This module proves which texts are read as numbers: one or more digits, with a sign in front where
the type allows it, whose value is within the bounds of the type. The number of digits does not
count, and a value beyond the bounds is refused, however far beyond. So the numeral of a number is
read back as the number, if it is a number of the type.
-/

namespace CellMachine.Text

theorem digit?_of_isDigit {c : Char} (h : c.isDigit) :
    digit? 10 c = some (c.toNat - '0'.toNat) := by
  have hrange : '0' ≤ c ∧ c ≤ '9' := by
    simpa [Char.isDigit, Char.le_def, UInt32.le_iff_toNat_le] using h
  have hlt : c.toNat - 48 < 10 := by
    have hle : c.toNat ≤ 57 := hrange.2
    omega
  simp [digit?, hrange, hlt]

theorem digit?_eq_none {c : Char} (h : ¬c.isDigit) : digit? 10 c = none := by
  have hrange : ¬('0' ≤ c ∧ c ≤ '9') := by
    simpa [Char.isDigit, Char.le_def, UInt32.le_iff_toNat_le] using h
  -- A letter stands for ten or more.
  rw [digit?, if_neg hrange]
  split
  · exact Option.filter_eq_none_iff.2 fun n hn => by simp at hn ⊢; omega
  · split
    · exact Option.filter_eq_none_iff.2 fun n hn => by simp at hn ⊢; omega
    · rfl

theorem digits?_of_isDigit {cs : List Char} (h : ∀ c ∈ cs, c.isDigit) (n : Nat) :
    digits? 10 n cs = some (Nat.ofDigitChars 10 cs n) := by
  induction cs generalizing n with
  | nil => rfl
  | cons c cs ih =>
    obtain ⟨hc, hcs⟩ := List.forall_mem_cons.1 h
    rw [digits?, digit?_of_isDigit hc, Option.bind_some, ih hcs, Nat.ofDigitChars_cons]

theorem isDigit_of_digits? {cs : List Char} {n m : Nat} (h : digits? 10 n cs = some m) :
    ∀ c ∈ cs, c.isDigit := by
  induction cs generalizing n with
  | nil => nofun
  | cons c cs ih =>
    rw [digits?] at h
    obtain ⟨d, hd, hrest⟩ := Option.bind_eq_some_iff.1 h
    refine List.forall_mem_cons.2 ⟨?_, ih hrest⟩
    refine Decidable.byContradiction fun hc => ?_
    rw [digit?_eq_none hc] at hd
    cases hd

/-! ## Numerals and their values -/

def Spells (cs : List Char) (n : Nat) : Prop :=
  cs ≠ [] ∧ (∀ c ∈ cs, c.isDigit) ∧ Nat.ofDigitChars 10 cs 0 = n

def SpellsUnsigned (cs : List Char) (n : Nat) : Prop :=
  ∃ ds, (cs = ds ∨ cs = '+' :: ds) ∧ Spells ds n

/-- Digits that write the magnitude of `n`, with a `-` in front or else an optional `+`. -/
def SpellsSigned (cs : List Char) (n : Int) : Prop :=
  (∃ k : Nat, SpellsUnsigned cs k ∧ n = k) ∨
    ∃ (ds : List Char) (k : Nat), cs = '-' :: ds ∧ Spells ds k ∧ n = -k

theorem natural?_eq_some_iff {cs : List Char} {n : Nat} :
    natural? 10 cs = some n ↔ Spells cs n := by
  unfold natural?
  split
  · rename_i hempty
    exact ⟨nofun, fun h => absurd (List.isEmpty_iff.1 hempty) h.1⟩
  · rename_i hne
    constructor
    · intro h
      have hdigits := isDigit_of_digits? h
      rw [digits?_of_isDigit hdigits] at h
      exact ⟨fun hnil => hne (List.isEmpty_iff.2 hnil), hdigits, Option.some.inj h⟩
    · rintro ⟨-, hdigits, rfl⟩
      exact digits?_of_isDigit hdigits 0

theorem Spells.not_cons {c : Char} {rest : List Char} {n : Nat} (h : Spells (c :: rest) n)
    (hc : c.isDigit = false) : False := by
  rw [h.2.1 c List.mem_cons_self] at hc
  cases hc

theorem unsigned?_of_ne {bound : Nat} {cs : List Char} (h : ∀ rest, cs ≠ '+' :: rest) :
    unsigned? 10 bound cs = (natural? 10 cs).filter (· < bound) := by
  unfold unsigned?
  split
  · rename_i rest
    exact absurd rfl (h rest)
  · rfl

theorem signed?_minus (bound : Nat) (rest : List Char) : signed? bound ('-' :: rest) =
    ((natural? 10 rest).filter (· ≤ bound)).map fun k => -Int.ofNat k := by
  rw [signed?]
  cases (natural? 10 rest).filter (· ≤ bound) <;> rfl

theorem signed?_of_ne {bound : Nat} {cs : List Char} (h : ∀ rest, cs ≠ '-' :: rest) :
    signed? bound cs = (unsigned? 10 bound cs).map Int.ofNat := by
  unfold signed?
  split
  · rename_i rest
    exact absurd rfl (h rest)
  · rfl
  · rename_i hplus
    rw [unsigned?_of_ne hplus]

theorem filter_natural?_eq_some_iff {bound n : Nat} {cs : List Char} :
    (natural? 10 cs).filter (· < bound) = some n ↔ Spells cs n ∧ n < bound := by
  rw [Option.filter_eq_some_iff, natural?_eq_some_iff, decide_eq_true_eq]

/-- Digits do not begin with a sign, so there is one way to read a sign. -/
theorem unsigned?_eq_some_iff {bound n : Nat} {cs : List Char} :
    unsigned? 10 bound cs = some n ↔ SpellsUnsigned cs n ∧ n < bound := by
  constructor
  · intro h
    unfold unsigned? at h
    split at h
    · rename_i rest
      obtain ⟨hrest, hn⟩ := filter_natural?_eq_some_iff.1 h
      exact ⟨⟨rest, .inr rfl, hrest⟩, hn⟩
    · obtain ⟨hcs, hn⟩ := filter_natural?_eq_some_iff.1 h
      exact ⟨⟨cs, .inl rfl, hcs⟩, hn⟩
  · rintro ⟨⟨ds, rfl | rfl, h⟩, hn⟩
    · rw [unsigned?_of_ne]
      · exact filter_natural?_eq_some_iff.2 ⟨h, hn⟩
      · rintro rest rfl
        exact h.not_cons rfl
    · exact filter_natural?_eq_some_iff.2 ⟨h, hn⟩

theorem not_spellsUnsigned_minus {rest : List Char} {n : Nat} :
    ¬SpellsUnsigned ('-' :: rest) n := by
  rintro ⟨ds, rfl | hds, h⟩
  · exact h.not_cons rfl
  · cases hds

theorem signed?_minus_eq_some_iff {bound : Nat} (hbound : 0 < bound) {rest : List Char} {n : Int} :
    signed? bound ('-' :: rest) = some n ↔
      SpellsSigned ('-' :: rest) n ∧ -bound ≤ n ∧ n < bound := by
  simp only [signed?_minus, Option.map_eq_some_iff, Option.filter_eq_some_iff,
    natural?_eq_some_iff, decide_eq_true_eq]
  constructor
  · rintro ⟨k, ⟨hk, hle⟩, rfl⟩
    exact ⟨.inr ⟨rest, k, rfl, hk, rfl⟩, by simp; omega⟩
  · rintro ⟨⟨k, hk, -⟩ | ⟨ds, k, hds, hk, rfl⟩, hle, -⟩
    · exact absurd hk not_spellsUnsigned_minus
    · cases hds
      exact ⟨k, ⟨hk, by omega⟩, rfl⟩

/-- A negative number may be one further from zero than a positive one. -/
theorem signed?_eq_some_iff {bound : Nat} (hbound : 0 < bound) {cs : List Char} {n : Int} :
    signed? bound cs = some n ↔ SpellsSigned cs n ∧ -bound ≤ n ∧ n < bound := by
  by_cases hminus : ∃ rest, cs = '-' :: rest
  · obtain ⟨rest, rfl⟩ := hminus
    exact signed?_minus_eq_some_iff hbound
  · rw [signed?_of_ne fun rest h => hminus ⟨rest, h⟩]
    simp only [Option.map_eq_some_iff, unsigned?_eq_some_iff]
    constructor
    · rintro ⟨k, ⟨hk, hlt⟩, rfl⟩
      exact ⟨.inl ⟨k, hk, rfl⟩, by simp; omega⟩
    · rintro ⟨⟨k, hk, rfl⟩ | ⟨ds, -, rfl, -⟩, -, hlt⟩
      · exact ⟨k, ⟨hk, by omega⟩, rfl⟩
      · exact absurd ⟨ds, rfl⟩ hminus

/-! ## Numerals of numbers -/

theorem isDigit_of_mem_repr {n : Nat} {c : Char} (h : c ∈ (Nat.repr n).toList) : c.isDigit := by
  rw [Nat.toList_repr] at h
  exact Nat.isDigit_of_mem_toDigits (by decide) (by decide) h

theorem repr_ne_nil (n : Nat) : (Nat.repr n).toList ≠ [] := by
  rw [Nat.toList_repr]
  exact Nat.toDigits_ne_nil

theorem spells_repr (n : Nat) : Spells (Nat.repr n).toList n := by
  refine ⟨repr_ne_nil n, fun _ => isDigit_of_mem_repr, ?_⟩
  rw [Nat.toList_repr, Nat.ofDigitChars_ten_toDigits]

theorem spellsSigned_toString (n : Int) : SpellsSigned (toString n).toList n := by
  cases n with
  | ofNat k => exact .inl ⟨k, ⟨_, .inl rfl, spells_repr k⟩, rfl⟩
  | negSucc k => exact .inr ⟨_, k + 1, String.toList_append, spells_repr (k + 1), rfl⟩

theorem unsigned?_repr (bound n : Nat) :
    unsigned? 10 bound (Nat.repr n).toList = if n < bound then some n else none := by
  have hsign : ∀ rest, (Nat.repr n).toList ≠ '+' :: rest := by
    intro rest h
    have hplus : '+'.isDigit := isDigit_of_mem_repr (n := n) (by simp [h])
    exact absurd hplus (by decide)
  rw [unsigned?_of_ne hsign, natural?_eq_some_iff.2 (spells_repr n)]
  by_cases h : n < bound
  · simp [h]
  · simp [h, Nat.le_of_not_lt h]

theorem word?_repr (n : Nat) :
    word? (Nat.repr n).toList = if n < UInt32.size then some (UInt32.ofNat n) else none := by
  rw [word?, unsigned?_repr]
  split <;> rfl

theorem byte?_repr (b : UInt8) : byte? (Nat.repr b.toNat).toList = some b := by
  rw [byte?, unsigned?_repr, if_pos b.toNat_lt, Option.map_some, UInt8.ofNat_toNat]

end CellMachine.Text
