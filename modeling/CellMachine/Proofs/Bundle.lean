import CellMachine.Bundle
import CellMachine.Machine.Execution
import CellMachine.Proofs.OrderedMap
import CellMachine.Proofs.Text.Order

/-!
# Bundles as bytes

This module proves how bundles and byte strings correspond. A byte string is accepted as a bundle if
it consists of a program and complete files whose names are text, in whatever order and with
whatever names; of two files with one name the later counts. The form of a bundle is one such byte
string, the one in which the bytes of the names ascend.
-/

namespace CellMachine

namespace Bundle

def packed (file : String × Bytes) : Bytes := (Text.encode file.1).framed ++ file.2.framed

/-- Whether the lengths of a file's name and data fit words. -/
def FitsFile (file : String × Bytes) : Prop :=
  (Text.encode file.1).length < 2 ^ 32 ∧ file.2.length < 2 ^ 32

/-- The input consists of the program and the files, each complete. -/
def IsPacked (main : Bytes) (files : List (String × Bytes)) (input : Bytes) : Prop :=
  main.length < 2 ^ 32 ∧ (∀ file ∈ files, FitsFile file) ∧
    main.framed ++ files.flatMap packed = input

def Fits (b : Bundle) : Prop := b.main.length < 2 ^ 32 ∧ ∀ file ∈ b.files.toList, FitsFile file

variable {b : Bundle} {main main' : Bytes} {files files' : List (String × Bytes)} {input : Bytes}

/-! ## Files -/

theorem packed_ne_nil (file : String × Bytes) : packed file ≠ [] := by
  intro h
  have hlen := congrArg List.length h
  simp [packed, Bytes.length_framed] at hlen

theorem inverts_readFile : readFile.Inverts packed FitsFile := by
  have hname := Reading.inverts_frame "bundle file name"
  have hdata (name : String) := Reading.inverts_pair_frame "bundle file data" name
  intro c c' file
  rw [readFile, Stateful.get_bind, Stateful.bind_eq_ok_iff, packed, Cursor.passes_append]
  constructor
  · rintro ⟨bytes, d, hbytes, hrest⟩
    cases htext : Text.decode? bytes with
    | none =>
      rw [htext] at hrest
      cases hrest
    | some name =>
      rw [htext] at hrest
      obtain rfl := Text.encode_of_decode? htext
      obtain ⟨hlen, hd⟩ := (hname c d _).1 hbytes
      obtain ⟨⟨rfl, hlen'⟩, hc'⟩ := (hdata name d c' file).1 hrest
      exact ⟨⟨hlen, hlen'⟩, d, hd, hc'⟩
  · rintro ⟨⟨hlen, hlen'⟩, d, hd, hc'⟩
    refine ⟨Text.encode file.1, d, (hname c d _).2 ⟨hlen, hd⟩, ?_⟩
    rw [Text.decode?_encode]
    exact (hdata file.1 d c' file).2 ⟨⟨rfl, hlen'⟩, hc'⟩

/-! ## Bundles -/

theorem readAll_eq_ok_iff {c c' : Cursor} : readAll c = .ok (main, files) c' ↔
    main.length < 2 ^ 32 ∧ (∀ file ∈ files, FitsFile file) ∧
      c.Passes (main.framed ++ files.flatMap packed) c' ∧ c'.rest = [] := by
  rw [readAll, Stateful.bind_eq_ok_iff]
  simp only [Stateful.bind_eq_ok_iff, Stateful.pure_eq_ok_iff, Cursor.passes_append]
  constructor
  · rintro ⟨_, d, hmain, _, _, hfiles, ⟨⟩, rfl⟩
    obtain ⟨hlen, hd⟩ := (Reading.inverts_frame _ _ _ _).1 hmain
    obtain ⟨hall, hpass, hend⟩ := (Reading.toEnd_eq_ok_iff inverts_readFile packed_ne_nil).1 hfiles
    exact ⟨hlen, hall, ⟨d, hd, hpass⟩, hend⟩
  · rintro ⟨hlen, hall, ⟨d, hd, hpass⟩, hend⟩
    exact ⟨main, d, (Reading.inverts_frame _ _ _ _).2 ⟨hlen, hd⟩, files, c',
      (Reading.toEnd_eq_ok_iff inverts_readFile packed_ne_nil).2 ⟨hall, hpass, hend⟩, rfl, rfl⟩

theorem runOn_readAll_eq_ok_iff :
    readAll.runOn input = .ok (main, files) ↔ IsPacked main files input := by
  rw [Reading.runOn_eq_ok_iff, IsPacked, ← Reading.exists_passes_iff]
  simp only [readAll_eq_ok_iff, exists_and_left]

/-- A byte string tells the program and the files that it consists of. -/
theorem IsPacked.eq (h : IsPacked main files input) (h' : IsPacked main' files' input) :
    main' = main ∧ files' = files := by
  have hread := runOn_readAll_eq_ok_iff.2 h
  rw [runOn_readAll_eq_ok_iff.2 h'] at hread
  exact Prod.mk.inj (Except.ok.inj hread)

theorem decode_eq_ok_iff : decode input = .ok b ↔
    ∃ files, IsPacked b.main files input ∧ OrderedMap.ofList files = b.files := by
  rw [decode, Reading.map_runOn_eq_ok_iff]
  constructor
  · rintro ⟨⟨main, files⟩, hread, rfl⟩
    exact ⟨files, runOn_readAll_eq_ok_iff.1 hread, rfl⟩
  · rintro ⟨files, hpacked, hfiles⟩
    exact ⟨_, runOn_readAll_eq_ok_iff.2 hpacked, congrArg (Bundle.mk b.main) hfiles⟩

theorem Fits.isPacked (h : b.Fits) : IsPacked b.main b.files.toList b.encode := ⟨h.1, h.2, rfl⟩

theorem decode_encode (h : b.Fits) : decode b.encode = .ok b :=
  decode_eq_ok_iff.2 ⟨_, h.isPacked, OrderedMap.ofList_toList b.files⟩

/-- Only files in ascending order of the bytes of their names are a bundle to the last byte. -/
theorem encode_eq_iff (h : IsPacked b.main files input)
    (hfiles : OrderedMap.ofList files = b.files) :
    b.encode = input ↔ (files.map fun file => Text.encode file.1).Pairwise (· < ·) := by
  have hencode : b.encode = b.main.framed ++ (OrderedMap.ofList files).toList.flatMap packed := by
    rw [hfiles]
    rfl
  rw [← OrderedMap.ascending_iff_pairwise fun _ _ => Text.compare_eq_lt_iff, hencode, ← h.2.2,
    List.append_cancel_left_eq]
  exact OrderedMap.flatMap_ofList_eq_iff inverts_readFile packed_ne_nil h.2.1

/-! ## What bundles hold -/

/-- Nothing is lost between bundles and bytes. The last part is about executions: they start from
the machine of the program, in a world where the bundle's files are the files of the bundle. -/
theorem decode_inverts_encode :
    (∀ b : Bundle, b.Fits → decode b.encode = .ok b) ∧
    (∀ input b, decode input = .ok b → ∃ files,
      (∀ main' files', IsPacked main' files' input ↔ main' = b.main ∧ files' = files) ∧
      (∀ name, b.files.get? name =
        (files.filter fun file => file.1 = name).getLast?.map (·.2)) ∧
      (b.encode = input ↔ (files.map fun file => Text.encode file.1).Pairwise (· < ·))) ∧
    ∀ b : Bundle, b.Fits → ∀ (o : Options) (world : World),
      Execution.startBundle o world b.encode =
        Execution.start o { world with bundle := some (.memory b.files false) } b.main := by
  refine ⟨fun b => decode_encode, ?_, ?_⟩
  · intro input b h
    obtain ⟨files, hpacked, hfiles⟩ := decode_eq_ok_iff.1 h
    refine ⟨files, fun main' files' => ⟨hpacked.eq, ?_⟩, ?_, encode_eq_iff hpacked hfiles⟩
    · rintro ⟨rfl, rfl⟩
      exact hpacked
    · rw [← hfiles]
      exact OrderedMap.get?_ofList files
  · intro b h o world
    rw [Execution.startBundle, decode_encode h]

/-- Files whose names do not ascend and one of which replaces another one. -/
def replacing : List (String × Bytes) := [("é", [1]), ("a", [2]), ("é", [])]

theorem decode_inverts_encode_replacing :
    let input := Bytes.framed [] ++ replacing.flatMap packed
    let b : Bundle := ⟨[], .ofList [("a", [2]), ("é", [])]⟩
    decode input = .ok b ∧ b.files.get? "é" = some [] ∧ b.encode ≠ input ∧
      decode b.encode = .ok b ∧
      Execution.startBundle {} {} b.encode =
        Execution.start {} { bundle := some (.memory b.files false) } [] := by
  intro input b
  have hinput : decode input = .ok b := by
    decide +kernel
  have hpacked : IsPacked [] replacing input := by
    refine ⟨by decide, ?_, rfl⟩
    unfold FitsFile
    decide +kernel
  have hfits : b.Fits := by
    unfold Fits FitsFile
    decide +kernel
  obtain ⟨files, hfiles, hget, hencode⟩ := decode_inverts_encode.2.1 input b hinput
  obtain ⟨-, rfl⟩ := (hfiles _ _).1 hpacked
  refine ⟨hinput, (hget "é").trans (by decide +kernel), ?_, decode_inverts_encode.1 b hfits,
    decode_inverts_encode.2.2 b hfits {} {}⟩
  rw [ne_eq, hencode]
  decide +kernel

end Bundle

end CellMachine
