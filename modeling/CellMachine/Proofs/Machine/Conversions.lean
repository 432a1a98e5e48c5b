import CellMachine.Proofs.Arithmetic
import CellMachine.Proofs.Cell.Number
import CellMachine.Proofs.Cell.Numeral
import CellMachine.Proofs.Machine.Values

/-!
# Conversions of integers

This module proves that the conversions between integers and texts, and between unsigned and signed
integers, lose nothing and never wrap (`conversions_lossless`). A conversion to text is undone by
the one back, which gives the four bytes of the number, whatever bytes it has been read from. A text
that is no numeral of the type is refused, and so is a number that the other type does not have.
-/

namespace CellMachine

open Cell Opcode

variable {i : Instruction} {ns : Namespace} {code : UInt32} {c : Conversion} {x b : Bytes}

namespace Instruction

/-! ## Operands of known value -/

theorem uint_eq_typed {n : Nat} (h : i.value ns n = .ok x) : i.uint ns n = typed Cell.uint x := by
  rw [uint, h]
  rfl

theorem sint_eq_typed {n : Nat} (h : i.value ns n = .ok x) : i.sint ns n = typed Cell.sint x := by
  rw [sint, h]
  rfl

theorem text_eq_typed {n : Nat} (h : i.value ns n = .ok x) : i.text ns n = typed Cell.text x := by
  rw [text, h]
  rfl

theorem text_of_encode {n : Nat} {s : String} (h : i.value ns n = .ok (Text.encode s)) :
    i.text ns n = .ok s := by
  rw [text_eq_typed h, typed, Cell.text, Text.decode?_encode]
  rfl

end Instruction

namespace Opcode

theorem yields_of_conversion {v : Bytes} (hop : ofCode? code = some (.data (.convert c)))
    (hvalue : ∀ i ns, Instruction.value i ns 0 = .ok x → c.value i ns = .ok v) :
    Yields code [x] v :=
  yields_of_value (.convert c) hop fun i ns h => hvalue i ns (h 0 x rfl)

theorem refuses_of_conversion {f : Fault} (hop : ofCode? code = some (.data (.convert c)))
    (hvalue : ∀ i ns, Instruction.value i ns 0 = .ok x → c.value i ns = .error f) :
    Refuses code [x] f :=
  refuses_of_value (.convert c) hop fun i ns h => hvalue i ns (h 0 x rfl)

/-! ## From texts -/

section Parses

variable {α : Type} {kind : NumeralKind} {read : List Char → Option α} {write : α → Bytes}

/-- The opcode converts the texts that are parsed, and refuses all other byte strings. -/
structure Parses (code : UInt32) (parse : String → Except ReadingError α) (write : α → Bytes) :
    Prop where
  yields : ∀ s a, parse s = .ok a → Yields code [Text.encode s] (write a)
  refuses : ∀ b, (∀ s a, b = Text.encode s → parse s ≠ .ok a) →
    ∃ f, f.kind = .typeDecode ∧ Refuses code [b] f

theorem parses_of_value (hop : ofCode? code = some (.data (.convert c)))
    (hc : ∀ i ns, c.value i ns = do
      return write (← (Cell.parse kind read (← i.text ns 0)).mapError .ofReading)) :
    Parses code (Cell.parse kind read) write where
  yields s a h := by
    refine yields_of_conversion hop fun i ns hvalue => ?_
    simp only [hc, Instruction.text_of_encode hvalue, bind, Except.bind, h]
    rfl
  refuses b h := by
    cases htext : Text.decode? b with
    | none =>
      refine ⟨.ofReading .notText, rfl, refuses_of_conversion hop fun i ns hvalue => ?_⟩
      rw [hc, Instruction.text_eq_typed hvalue, Instruction.typed, Cell.text, htext]
      rfl
    | some s =>
      obtain rfl := Text.encode_of_decode? htext
      have herror : Cell.parse kind read s = .error (.unparsable s kind) :=
        parse_eq_error_iff.2 ⟨rfl, fun a => h s a rfl⟩
      refine ⟨.ofReading (.unparsable s kind), rfl,
        refuses_of_conversion hop fun i ns hvalue => ?_⟩
      simp only [hc, Instruction.text_of_encode hvalue, bind, Except.bind, herror]
      rfl

end Parses

theorem parses_uint : Parses 41 parseUint ofUint :=
  parses_of_value (c := .textToUint) (by decide +kernel) fun _ _ => rfl

theorem parses_sint : Parses 156 parseSint ofSint :=
  parses_of_value (c := .textToSint) (by decide +kernel) fun _ _ => rfl

/-! ## To texts -/

theorem yields_uintToText {v : UInt32} (h : Cell.uint x = .ok v) :
    Yields 39 [x] (Text.encode (toString v.toNat)) := by
  refine yields_of_conversion (c := .uintToText) (by decide +kernel) fun i ns hvalue => ?_
  rw [Conversion.value, Instruction.uint_eq_typed hvalue, Instruction.typed, h]
  rfl

theorem yields_sintToText {n : Int32} (h : Cell.sint x = .ok n) :
    Yields 153 [x] (Text.encode (toString n.toInt)) := by
  refine yields_of_conversion (c := .sintToText) (by decide +kernel) fun i ns hvalue => ?_
  rw [Conversion.value, Instruction.sint_eq_typed hvalue, Instruction.typed, h]
  rfl

/-! ## From one type to the other -/

section Casts

variable {α β : Type} {reading : Bytes → Except ReadingError α}
  {cast : α → Except ArithmeticError β} {write : β → Bytes} {r : α} {y : β}

theorem yields_of_cast (hop : ofCode? code = some (.data (.convert c)))
    (hc : ∀ i ns, Instruction.value i ns 0 = .ok x →
      c.value i ns = do return write (← computed (cast (← Instruction.typed reading x))))
    (hr : reading x = .ok r) (hy : cast r = .ok y) : Yields code [x] (write y) := by
  refine yields_of_conversion hop fun i ns hvalue => ?_
  rw [hc i ns hvalue, Instruction.typed, hr]
  simp only [bind, Except.bind, Except.mapError, hy]
  rfl

theorem refuses_of_cast {e : ArithmeticError} (hop : ofCode? code = some (.data (.convert c)))
    (hc : ∀ i ns, Instruction.value i ns 0 = .ok x →
      c.value i ns = do return write (← computed (cast (← Instruction.typed reading x))))
    (hr : reading x = .ok r) (he : cast r = .error e) : Refuses code [x] (.arithmetic e) := by
  refine refuses_of_conversion hop fun i ns hvalue => ?_
  rw [hc i ns hvalue, Instruction.typed, hr]
  simp only [bind, Except.bind, Except.mapError, he]
  rfl

end Casts

theorem uintToSint_eq (h : i.value ns 0 = .ok x) : Conversion.uintToSint.value i ns = do
    return ofSint (← computed (sintOfUint (← Instruction.typed Cell.uint x))) := by
  rw [← Instruction.uint_eq_typed h]
  rfl

theorem sintToUint_eq (h : i.value ns 0 = .ok x) : Conversion.sintToUint.value i ns = do
    return ofUint (← computed (uintOfSint (← Instruction.typed Cell.sint x))) := by
  rw [← Instruction.sint_eq_typed h]
  rfl

end Opcode

/-! ## Numbers of both types -/

section Numbers

variable {v : UInt32} {n : Int32}

theorem toInt_eq_toNat_iff : n.toInt = v.toNat ↔ n = v.toInt32 ∧ v.toNat < 2 ^ 31 := by
  have hv : v.toNat < 2 ^ 32 := v.toNat_lt
  have hlow : -2 ^ 31 ≤ n.toInt := n.le_toInt
  have hhigh : n.toInt < 2 ^ 31 := n.toInt_lt
  rw [← Int32.toInt_inj, toInt_toInt32]
  split <;> omega

theorem sintOfUint_eq_ok_iff : sintOfUint v = .ok n ↔ n.toInt = v.toNat := by
  rw [toInt_eq_toNat_iff, sintOfUint, eq_comm (a := n)]
  have hless : v < 0x80000000 ↔ v.toNat < 2 ^ 31 := UInt32.lt_iff_toNat_lt
  split
  · rename_i h
    rw [Except.ok.injEq, and_iff_left (hless.1 h)]
  · rename_i h
    exact ⟨nofun, fun hv => absurd (hless.2 hv.2) h⟩

theorem uintOfSint_eq_ok_iff : uintOfSint n = .ok v ↔ n.toInt = v.toNat := by
  have hle : 0 ≤ n ↔ 0 ≤ n.toInt := Int32.le_iff_toInt_le
  rw [toInt_eq_toNat_iff, uintOfSint]
  split
  · rename_i h
    rw [Except.ok.injEq]
    constructor
    · rintro rfl
      have hword : n.toUInt32.toNat < 2 ^ 32 := n.toUInt32.toNat_lt
      have hinteger : n.toInt = _ := toInt_toInt32 (v := n.toUInt32)
      refine ⟨rfl, ?_⟩
      rw [hle, hinteger] at h
      split at h <;> omega
    · rintro ⟨rfl, -⟩
      rfl
  · rename_i h
    refine ⟨nofun, fun hn => absurd (hle.2 ?_) h⟩
    rw [toInt_eq_toNat_iff.2 hn]
    exact Int.natCast_nonneg _

theorem sintOfUint_eq_error (h : 2 ^ 31 ≤ v.toNat) : sintOfUint v = .error (.uintToSint v) :=
  if_neg fun hless => Nat.not_lt_of_le h (UInt32.lt_iff_toNat_lt.1 hless)

theorem uintOfSint_eq_error (h : n.toInt < 0) : uintOfSint n = .error (.sintToUint n) := by
  have hle : 0 ≤ n ↔ 0 ≤ n.toInt := Int32.le_iff_toInt_le
  exact if_neg fun hn => Int.not_le.2 h (hle.1 hn)

/-- A number of the one type is converted to the same number of the other one and back, or there is
no such number and it is refused. -/
theorem uint_sint_uint (h : Cell.uint x = .ok v) :
    (∃ n : Int32, n.toInt = v.toNat ∧ Yields 158 [x] (ofSint n) ∧
      Yields 155 [ofSint n] (ofUint v)) ∨
    2 ^ 31 ≤ v.toNat ∧ ∃ f : Fault, f.kind = .arithmetic ∧ Refuses 158 [x] f := by
  have hop : ofCode? 158 = some (.data (.convert .uintToSint)) := by decide +kernel
  have hback : ofCode? 155 = some (.data (.convert .sintToUint)) := by decide +kernel
  by_cases hv : v.toNat < 2 ^ 31
  · have hn := toInt_eq_toNat_iff.2 ⟨rfl, hv⟩
    exact .inl ⟨v.toInt32, hn,
      yields_of_cast hop (fun _ _ => uintToSint_eq) h (sintOfUint_eq_ok_iff.2 hn),
      yields_of_cast hback (fun _ _ => sintToUint_eq) (sint_ofSint _) (uintOfSint_eq_ok_iff.2 hn)⟩
  · have hle := Nat.le_of_not_lt hv
    exact .inr ⟨hle, _, rfl,
      refuses_of_cast hop (fun _ _ => uintToSint_eq) h (sintOfUint_eq_error hle)⟩

theorem sint_uint_sint (h : Cell.sint x = .ok n) :
    (∃ v : UInt32, n.toInt = v.toNat ∧ Yields 155 [x] (ofUint v) ∧
      Yields 158 [ofUint v] (ofSint n)) ∨
    n.toInt < 0 ∧ ∃ f : Fault, f.kind = .arithmetic ∧ Refuses 155 [x] f := by
  have hop : ofCode? 155 = some (.data (.convert .sintToUint)) := by decide +kernel
  have hback : ofCode? 158 = some (.data (.convert .uintToSint)) := by decide +kernel
  by_cases hn : n.toInt < 0
  · exact .inr ⟨hn, _, rfl,
      refuses_of_cast hop (fun _ _ => sintToUint_eq) h (uintOfSint_eq_error hn)⟩
  · obtain ⟨v, hv⟩ : ∃ v : UInt32, (v.toNat : Int) = n.toInt :=
      exists_toNat_eq_iff.2 ⟨Int.not_lt.1 hn, Int.lt_trans n.toInt_lt (by decide)⟩
    exact .inl ⟨v, hv.symm,
      yields_of_cast hop (fun _ _ => sintToUint_eq) h (uintOfSint_eq_ok_iff.2 hv.symm),
      yields_of_cast hback (fun _ _ => uintToSint_eq) (uint_ofUint v)
        (sintOfUint_eq_ok_iff.2 hv.symm)⟩

end Numbers

/-! ## Conversions -/

/-- Conversions of integers lose nothing. The text of a number is converted back to the four bytes
of the number, and white space around a text makes no difference. The texts that are converted are
those of numerals of the type with white space around them; every other byte string is refused, and
nothing changes. Between the types numbers are converted to equal ones and back, and those that the
other type does not have are refused. -/
theorem conversions_lossless :
    (∀ x v, Cell.uint x = .ok v → ∃ t, Yields 39 [x] t ∧ Yields 41 [t] (ofUint v)) ∧
    (∀ x n, Cell.sint x = .ok n → ∃ t, Yields 153 [x] t ∧ Yields 156 [t] (ofSint n)) ∧
    (∀ before s after : String, Text.Blank before.toList → Text.Blank after.toList →
      (∀ v, parseUint (before ++ s ++ after) = .ok v ↔ parseUint s = .ok v) ∧
      ∀ n, parseSint (before ++ s ++ after) = .ok n ↔ parseSint s = .ok n) ∧
    (∀ s v, parseUint s = .ok v ↔
      ∃ core, Text.Pads core s.toList ∧ Text.SpellsUnsigned core v.toNat) ∧
    (∀ s n, parseSint s = .ok n ↔
      ∃ core, Text.Pads core s.toList ∧ Text.SpellsSigned core n.toInt) ∧
    Parses 41 parseUint ofUint ∧ Parses 156 parseSint ofSint ∧
    (∀ (x : Bytes) (v : UInt32), Cell.uint x = .ok v →
      (∃ n : Int32, n.toInt = v.toNat ∧ Yields 158 [x] (ofSint n) ∧
        Yields 155 [ofSint n] (ofUint v)) ∨
      2 ^ 31 ≤ v.toNat ∧ ∃ f : Fault, f.kind = .arithmetic ∧ Refuses 158 [x] f) ∧
    ∀ (x : Bytes) (n : Int32), Cell.sint x = .ok n →
      (∃ v : UInt32, n.toInt = v.toNat ∧ Yields 155 [x] (ofUint v) ∧
        Yields 158 [ofUint v] (ofSint n)) ∨
      n.toInt < 0 ∧ ∃ f : Fault, f.kind = .arithmetic ∧ Refuses 155 [x] f := by
  refine ⟨?_, ?_, ?_, fun _ _ => parseUint_eq_ok_iff, fun _ _ => parseSint_eq_ok_iff, parses_uint,
    parses_sint, fun _ _ => uint_sint_uint, fun _ _ => sint_uint_sint⟩
  · intro x v h
    exact ⟨_, yields_uintToText h, parses_uint.yields _ v (parseUint_toString v)⟩
  · intro x n h
    exact ⟨_, yields_sintToText h, parses_sint.yields _ n (parseSint_toString n)⟩
  · intro before s after hbefore hafter
    exact ⟨fun _ => parse_pads hbefore hafter, fun _ => parse_pads hbefore hafter⟩

/-- The least signed number as text and back, a padded numeral with a sign and zeros, and a numeral
that is one beyond the unsigned numbers. -/
theorem conversions_lossless_least :
    let i : Instruction := ⟨0, 153, [[0], [1]]⟩
    let j : Instruction := ⟨1, 156, [[1], [2]]⟩
    let cells : Namespace := .ofList [(0, [128, 0, 0, 0])]
    let s : Focus := ⟨{ table := OrderedMap.empty.insert 0 ⟨cells, none⟩ },
      { program := default, active := 0 }⟩
    (∃ t u ns, i.run {} s = .ok (.flow .next) t ∧ j.run {} t = .ok (.flow .next) u ∧
      u.world.table.memory 0 = .ok ns ∧ ns.get? 2 = some [128, 0, 0, 0]) ∧
    parseUint "\u3000+007\n" = .ok 7 ∧
    ∃ f : Fault, f.kind = .typeDecode ∧ Refuses 41 [Text.encode "4294967296"] f := by
  intro i j cells s
  obtain ⟨-, hback, -, huint, -, hparses, -⟩ := conversions_lossless
  refine ⟨?_, ?_, hparses.refuses _ ?_⟩
  · have hshow : Opcode.ofCode? 153 = some (.data (.convert .sintToText)) := by decide +kernel
    have hparse : Opcode.ofCode? 156 = some (.data (.convert .textToSint)) := by decide +kernel
    have hleast : Cell.sint [128, 0, 0, 0] = .ok (-0x80000000) := by decide
    have hfinds : i.Finds s cells [[128, 0, 0, 0]] := ⟨rfl, by rintro (_ | n) v ⟨⟩; rfl⟩
    obtain ⟨text, hshows, hreads⟩ := hback _ _ hleast
    obtain ⟨t, ht, hassigns⟩ := hshows.run (o := {}) (a := 1) hshow rfl hfinds rfl
    obtain ⟨_, ns, ⟨⟩, hns, hget⟩ := hassigns.cells
    have hfinds' : j.Finds t ns [text] := by
      refine ⟨by rw [hassigns.exec, hns], ?_⟩
      rintro (_ | n) v ⟨⟩
      rw [Instruction.value_of_address (a := 1) rfl, Namespace.load, hget]
      rfl
    obtain ⟨u, hu, hassigns'⟩ := hreads.run (o := {}) (a := 2) hparse rfl hfinds' rfl
    obtain ⟨_, ns', -, hns', hget'⟩ := hassigns'.cells
    rw [hassigns.exec] at hns'
    exact ⟨t, u, ns', ht, hu, hns', hget' 2⟩
  · have hspace : Text.isBlank '\u3000' = true := by decide
    have hfeed : Text.isBlank '\n' = true := by decide
    have hdigits : "007".toList.all Char.isDigit = true := by decide
    refine (huint _ _).2 ⟨"+007".toList, ⟨['\u3000'], ['\n'], ?_, ?_, by decide⟩, "007".toList,
      .inr rfl, by decide, List.all_eq_true.1 hdigits, by decide⟩
    · exact List.forall_mem_singleton.2 hspace
    · exact List.forall_mem_singleton.2 hfeed
  · intro text v htext
    have hsame := congrArg Text.decode? htext
    rw [Text.decode?_encode, Text.decode?_encode] at hsame
    cases hsame
    have herror : parseUint "4294967296" = .error (.unparsable "4294967296" .uint) := by
      decide +kernel
    rw [herror]
    nofun

end CellMachine
