import CellMachine.Text.Utf8
import Mathlib.Algebra.Ring.Nat
import Mathlib.Tactic.SplitIfs

/-!
# UTF-8 and repair

This module proves that characters are told by their bytes, that ASCII bytes are text, and that
repairing bytes never makes them shorter: a replacement character has three bytes, and no ill-formed
run is longer than that.

The last part needs to know how many bytes the character under way takes. `Partial.Sound w` says
that `w` is this number, whatever the bytes still owed turn out to be.
-/

namespace CellMachine.Text

theorem encode_ofList (cs : List Char) :
    encode (String.ofList cs) = cs.flatMap String.utf8EncodeChar := by
  simp [encode, String.toUTF8, List.utf8Encode]

def width (cs : List Char) : Nat := (cs.map Char.utf8Size).sum

@[simp] theorem width_cons (c : Char) (cs : List Char) : width (c :: cs) = c.utf8Size + width cs :=
  rfl

theorem length_encode_ofList (cs : List Char) :
    (encode (String.ofList cs)).length = width cs := by
  simp only [encode_ofList, width, List.length_flatMap, String.length_utf8EncodeChar]

theorem encode_ofList_cons (c : Char) (cs : List Char) :
    encode (String.ofList (c :: cs)) = String.utf8EncodeChar c ++ encode (String.ofList cs) := by
  rw [encode_ofList, encode_ofList, List.flatMap_cons]

theorem encode_ofList_append (cs cs' : List Char) :
    encode (String.ofList (cs ++ cs')) =
      encode (String.ofList cs) ++ encode (String.ofList cs') := by
  rw [encode_ofList, encode_ofList, encode_ofList, List.flatMap_append]

/-- The bytes of a character do not begin those of another one. -/
theorem utf8EncodeChar_append_inj {c c' : Char} {rest rest' : Bytes}
    (h : String.utf8EncodeChar c ++ rest = String.utf8EncodeChar c' ++ rest') :
    c = c' ∧ rest = rest' := by
  have hread (c : Char) (rest : Bytes) :
      (String.utf8EncodeChar c ++ rest).toByteArray.utf8DecodeChar? 0 = some c := by
    rw [List.toByteArray_append]
    exact ByteArray.utf8DecodeChar?_utf8EncodeChar_append
  have hc : c = c' := by
    have hsome := hread c rest
    rw [h, hread c' rest'] at hsome
    exact (Option.some.inj hsome).symm
  subst hc
  exact ⟨rfl, List.append_cancel_left h⟩

/-- ASCII bytes stand for themselves only. -/
theorem mem_utf8EncodeChar_iff {b : UInt8} (hb : b.toNat < 0x80) {c : Char} :
    b ∈ String.utf8EncodeChar c ↔ c.toNat = b.toNat := by
  have hc : c.val.toNat = c.toNat := rfl
  unfold String.utf8EncodeChar
  simp only [hc]
  split_ifs
  all_goals
    simp only [List.mem_cons, List.not_mem_nil, or_false, ← UInt8.toNat_inj, UInt8.toNat_ofNat']
    omega

/-! ## Characters by number -/

theorem toNat_ofNat {n : Nat} (h : n.isValidChar) : (Char.ofNat n).toNat = n := by
  rw [Char.ofNat, dif_pos h]
  rfl

theorem utf8Size_eq (c : Char) : c.utf8Size =
    if c.toNat ≤ 0x7F then 1 else if c.toNat ≤ 0x7FF then 2 else if c.toNat ≤ 0xFFFF then 3
      else 4 := by
  simp only [Char.utf8Size, UInt32.le_iff_toNat_le]
  rfl

theorem encode_ascii {bytes : Bytes} (h : ∀ b ∈ bytes, b.toNat < 0x80) :
    encode (String.ofList (bytes.map fun b => Char.ofNat b.toNat)) = bytes := by
  rw [encode_ofList]
  induction bytes with
  | nil => rfl
  | cons b bytes ih =>
    obtain ⟨hb, hbytes⟩ := List.forall_mem_cons.1 h
    have hnat : (Char.ofNat b.toNat).val.toNat = b.toNat := toNat_ofNat (.inl (by omega))
    have hbyte : String.utf8EncodeChar (Char.ofNat b.toNat) = [b] := by
      rw [String.utf8EncodeChar, hnat, if_pos (Nat.le_of_lt_succ hb), UInt8.ofNat_toNat]
    rw [List.map_cons, List.flatMap_cons, hbyte, ih hbytes, List.singleton_append]

/-! ## Repair -/

namespace Partial

/-- The number `n` is that of a character that `p` may become. -/
def Reaches (p : Partial) (n : Nat) : Prop :=
  ∃ b : UInt8, p.low ≤ b ∧ b ≤ p.high ∧
    n / 64 ^ (p.owed - 1) = p.bits * 64 + (b.toNat - 0x80)

/-- At least one byte has been read and at least one is owed, and whatever character comes of it has
at least `w` bytes. -/
def Sound (w : Nat) (p : Partial) : Prop :=
  0 < p.owed ∧ p.owed < w ∧ w ≤ 4 ∧
    ∀ n, p.Reaches n → n.isValidChar ∧ w ≤ (Char.ofNat n).utf8Size

end Partial

def leastNumber : (w : Nat) → Nat
  | 2 => 0x80
  | 3 => 0x800
  | 4 => 0x10000
  | _ => 0

theorem le_utf8Size {n w : Nat} (h : n.isValidChar) (hw : 1 < w ∧ w ≤ 4)
    (hn : leastNumber w ≤ n) : w ≤ (Char.ofNat n).utf8Size := by
  rw [utf8Size_eq, toNat_ofNat h]
  obtain rfl | rfl | rfl : w = 2 ∨ w = 3 ∨ w = 4 := by omega
  all_goals
    simp only [leastNumber] at hn
    split_ifs <;> omega

theorem Partial.sound_of_range {p : Partial} (howed : 0 < p.owed) (hwidth : p.owed + 1 ≤ 4)
    (h : ∀ n c, p.low.toNat ≤ c → c ≤ p.high.toNat →
      n / 64 ^ (p.owed - 1) = p.bits * 64 + (c - 0x80) →
        n.isValidChar ∧ leastNumber (p.owed + 1) ≤ n) : p.Sound (p.owed + 1) := by
  refine ⟨howed, Nat.lt_succ_self _, hwidth, ?_⟩
  rintro n ⟨b, hlow, hhigh, hn⟩
  obtain ⟨hvalid, hleast⟩ :=
    h n b.toNat (UInt8.le_iff_toNat_le.1 hlow) (UInt8.le_iff_toNat_le.1 hhigh) hn
  exact ⟨hvalid, le_utf8Size hvalid ⟨by omega, hwidth⟩ hleast⟩

theorem sound_of_lead {b : UInt8} {p : Partial} (h : Lead.of b = .begun p) :
    p.Sound (p.owed + 1) := by
  unfold Lead.of at h
  simp only [UInt8.lt_iff_toNat_lt, ← UInt8.toNat_inj, UInt8.reduceToNat] at h
  split_ifs at h
  -- Each kind of lead byte has a range of numbers of its own, with the bytes after it narrowed.
  all_goals
    obtain rfl := Lead.begun.inj h
    refine Partial.sound_of_range (by simp) (by simp) fun n c hlow hhigh hn => ?_
    simp only [UInt8.reduceToNat, Nat.reduceSub, Nat.reducePow, Nat.isValidChar, leastNumber,
      Nat.reduceAdd] at hlow hhigh hn ⊢
    omega

theorem Partial.Sound.next {p : Partial} {w : Nat} (h : p.Sound w) {b : UInt8} (hlow : p.low ≤ b)
    (hhigh : b ≤ p.high) (howed : p.owed ≠ 1) :
    Partial.Sound w { bits := p.bits * 64 + (b.toNat - 0x80), owed := p.owed - 1 } := by
  obtain ⟨hpos, hlt, hw, hreach⟩ := h
  refine ⟨by simp; omega, by simp; omega, hw, ?_⟩
  rintro n ⟨c, hclow, hchigh, hn⟩
  refine hreach n ⟨b, hlow, hhigh, ?_⟩
  -- The next byte settles six more bits of the number.
  simp only [UInt8.le_iff_toNat_le, UInt8.reduceToNat] at hclow hchigh hn
  have hpow : 64 ^ (p.owed - 1) = 64 ^ (p.owed - 1 - 1) * 64 := by
    rw [← Nat.pow_succ]
    congr 1
    omega
  rw [hpow, ← Nat.div_div_eq_div_mul, hn]
  omega

theorem Partial.Sound.last {p : Partial} {w : Nat} (h : p.Sound w) {b : UInt8} (hlow : p.low ≤ b)
    (hhigh : b ≤ p.high) (howed : p.owed = 1) :
    w ≤ (Char.ofNat (p.bits * 64 + (b.toNat - 0x80))).utf8Size := by
  obtain ⟨-, -, -, hreach⟩ := h
  refine (hreach _ ⟨b, hlow, hhigh, ?_⟩).2
  simp [howed]

theorem repair_some_cons (p : Partial) (b : UInt8) (rest : Bytes) :
    repair (some p) (b :: rest) =
      if p.low ≤ b ∧ b ≤ p.high then
        if p.owed = 1 then Char.ofNat (p.bits * 64 + (b.toNat - 0x80)) :: repair none rest
        else repair (some { bits := p.bits * 64 + (b.toNat - 0x80), owed := p.owed - 1 }) rest
      else replacement :: repair none (b :: rest) := by
  simp [repair]

/-- Repairing never drops a byte; the bytes of a character under way are counted in. -/
theorem length_le_width_repair (bytes : Bytes) :
    bytes.length ≤ width (repair none bytes) ∧
      ∀ w p, Partial.Sound w p → w - p.owed + bytes.length ≤ width (repair (some p) bytes) := by
  have hreplacement : replacement.utf8Size = 3 := by decide
  -- Both states of the repair go into one induction, since each leads to the other.
  induction bytes with
  | nil =>
    refine ⟨Nat.zero_le _, ?_⟩
    rintro w p ⟨hpos, -, hw, -⟩
    simp [repair, width, hreplacement]
    omega
  | cons b rest ih =>
    obtain ⟨ihnone, ihsome⟩ := ih
    have hnone : (b :: rest).length ≤ width (repair none (b :: rest)) := by
      rw [List.length_cons]
      cases hlead : Lead.of b with
      | whole c =>
        have hpos : 0 < c.utf8Size := c.utf8Size_pos
        simp [repair, hlead]
        omega
      | begun p =>
        have hp := ihsome _ p (sound_of_lead hlead)
        simp [repair, hlead]
        omega
      | stray =>
        simp [repair, hlead, hreplacement]
        omega
    refine ⟨hnone, ?_⟩
    intro w p hp
    rw [repair_some_cons]
    -- The byte ends the character, or goes on with it, or breaks it off and is read anew.
    split_ifs with hrange howed
    · have hlast := hp.last hrange.1 hrange.2 howed
      have hlt := hp.2.1
      rw [width_cons, List.length_cons]
      omega
    · have hnext := ihsome w _ (hp.next hrange.1 hrange.2 howed)
      have hpos := hp.1
      have hlt := hp.2.1
      rw [List.length_cons]
      simp only at hnext
      omega
    · obtain ⟨hpos, -, hw, -⟩ := hp
      rw [width_cons, hreplacement]
      omega

theorem length_le_length_encode_lossy (bytes : Bytes) :
    bytes.length ≤ (encode (lossy bytes)).length := by
  rw [lossy]
  cases h : decode? bytes with
  | some s =>
    rw [Option.getD_some]
    exact Nat.le_of_eq (congrArg List.length (encode_of_decode? h).symm)
  | none =>
    rw [Option.getD_none, length_encode_ofList]
    exact (length_le_width_repair bytes).1

theorem encode_lossy_eq_self_iff {bytes : Bytes} :
    encode (lossy bytes) = bytes ↔ (decode? bytes).isSome := by
  constructor
  · intro h
    rw [← h, decode?_encode]
    rfl
  · intro h
    obtain ⟨s, hs⟩ := Option.isSome_iff_exists.1 h
    rw [lossy, hs, Option.getD_some, encode_of_decode? hs]

end CellMachine.Text
