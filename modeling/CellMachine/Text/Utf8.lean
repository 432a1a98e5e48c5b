import CellMachine.Bytes

/-!
# UTF-8

Text as bytes. `decode?` accepts exactly the byte strings that `encode` produces; `lossy` never
fails and puts one replacement character for each maximal ill-formed run.
-/

namespace CellMachine.Text

def encode (s : String) : Bytes := s.toUTF8.data.toList

def decode? (bytes : Bytes) : Option String := String.fromUTF8? ⟨bytes.toArray⟩

theorem decode?_encode (s : String) : decode? (encode s) = some s := by
  have h : (⟨(encode s).toArray⟩ : ByteArray) = s.toByteArray := by
    simp [encode, String.toUTF8]
  simp only [decode?, String.fromUTF8?, h]
  exact dif_pos s.isValidUTF8

theorem encode_of_decode? {b : Bytes} {s : String} (h : decode? b = some s) : encode s = b := by
  simp only [decode?, String.fromUTF8?] at h
  split at h
  · cases h
    rfl
  · cases h

/-! ## Ill-formed text -/

structure Partial where
  bits : Nat
  -- How many continuation bytes are still owed.
  owed : Nat
  -- The least byte that may come next.
  low : UInt8 := 0x80
  -- The greatest byte that may come next.
  high : UInt8 := 0xBF

inductive Lead where
  | whole (c : Char)
  | begun (p : Partial)
  | stray  -- no character begins with this byte

/-- What the byte `b` begins. The bounds on the byte after it exclude overlong forms, surrogates
and numbers beyond the last code point. -/
def Lead.of (b : UInt8) : Lead :=
  if b < 0x80 then .whole (Char.ofNat b.toNat)
  else if b < 0xC2 then .stray
  else if b < 0xE0 then .begun { bits := b.toNat - 0xC0, owed := 1 }
  else if b = 0xE0 then .begun { bits := 0, owed := 2, low := 0xA0 }
  else if b = 0xED then .begun { bits := 0xD, owed := 2, high := 0x9F }
  else if b < 0xF0 then .begun { bits := b.toNat - 0xE0, owed := 2 }
  else if b = 0xF0 then .begun { bits := 0, owed := 3, low := 0x90 }
  else if b < 0xF4 then .begun { bits := b.toNat - 0xF0, owed := 3 }
  else if b = 0xF4 then .begun { bits := 4, owed := 3, high := 0x8F }
  else .stray

/-- The character that stands for an ill-formed run. -/
def replacement : Char := '\uFFFD'

/-- The characters of `bytes`, after the bytes of a character that has begun, if any; every maximal
ill-formed run gives one replacement character. -/
def repair : Option Partial → Bytes → List Char
  | none, [] => []
  | some _, [] => [replacement]
  | pending, b :: rest =>
    let continues (p : Partial) : Bool := p.low ≤ b && b ≤ p.high
    let begin (_ : Unit) : List Char :=
      match Lead.of b with
      | .whole c => c :: repair none rest
      | .begun p => repair (some p) rest
      | .stray => replacement :: repair none rest
    match pending with
    | none => begin ()
    | some p =>
      if continues p then
        let bits := p.bits * 64 + (b.toNat - 0x80)
        if p.owed = 1 then Char.ofNat bits :: repair none rest
        else repair (some { bits, owed := p.owed - 1 }) rest
      else replacement :: begin ()

/-- The text of `bytes`, with one replacement character for each maximal ill-formed run. -/
def lossy (bytes : Bytes) : String :=
  (decode? bytes).getD (String.ofList (repair none bytes))

@[simp] theorem lossy_encode (s : String) : lossy (encode s) = s := by
  simp [lossy, decode?_encode]

end CellMachine.Text
