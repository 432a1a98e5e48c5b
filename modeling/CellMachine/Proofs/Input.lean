import CellMachine.Input
import CellMachine.Proofs.Stateful
import CellMachine.Proofs.Text.Utf8
import Mathlib.Data.List.DropRight

/-!
# Known input and streams

This module proves how far input known beforehand and a stream of the same text agree
(`answers_stream_encode`). Any sequence of reads gets the same answers from both, but that a line of
a stream comes without the carriage returns at its end.

The stream is cut between bytes and the known input between characters. The two cuts are at one
place because the bytes of a character do not begin those of another one, and because a line feed
stands within the bytes of no other character.
-/

namespace CellMachine.Input

open Text (encode)

/-! ## Characters of a stream -/

theorem charOfFirst?_eq_some_iff {n : Nat} {bytes rest : Bytes} {c : Char} :
    charOfFirst? n bytes = some (c, rest) ↔
      bytes = String.utf8EncodeChar c ++ rest ∧ n = c.utf8Size := by
  have hone : encode (String.ofList [c]) = String.utf8EncodeChar c := by
    rw [Text.encode_ofList, List.flatMap_singleton]
  unfold charOfFirst?
  constructor
  · intro h
    split at h
    · cases h
    · rename_i hlong
      split at h
      · rename_i d hd
        cases h
        obtain ⟨s, hs, hlist⟩ := Option.map_eq_some_iff.1 hd
        have htake : bytes.take n = String.utf8EncodeChar c := by
          rw [← Text.encode_of_decode? hs, ← hone, ← hlist, String.ofList_toList]
        refine ⟨?_, ?_⟩
        · rw [← htake, List.take_append_drop]
        · rw [← String.length_utf8EncodeChar, ← htake, List.length_take]
          omega
      · cases h
  · rintro ⟨rfl, rfl⟩
    have hlong : ¬(String.utf8EncodeChar c ++ rest).length < c.utf8Size := by
      rw [List.length_append, String.length_utf8EncodeChar]
      omega
    rw [if_neg hlong, ← String.length_utf8EncodeChar, List.take_left, List.drop_left, ← hone,
      Text.decode?_encode, Option.map_some, String.toList_ofList]

theorem firstChar?_eq_some_iff {bytes rest : Bytes} {c : Char} :
    firstChar? bytes = some (c, rest) ↔ bytes = String.utf8EncodeChar c ++ rest := by
  constructor
  · intro h
    obtain ⟨n, -, hn⟩ := List.exists_of_findSome?_eq_some h
    exact (charOfFirst?_eq_some_iff.1 hn).1
  · intro h
    have hmem : c.utf8Size ∈ [1, 2, 3, 4] := by
      rcases Char.utf8Size_eq c with hsize | hsize | hsize | hsize <;> simp [hsize]
    have hsome : (firstChar? bytes).isSome := by
      refine List.findSome?_isSome_iff.2 ⟨c.utf8Size, hmem, ?_⟩
      rw [charOfFirst?_eq_some_iff.2 ⟨h, rfl⟩]
      rfl
    -- A shorter piece that is a character as well would be the same one.
    obtain ⟨⟨c', rest'⟩, hfirst⟩ := Option.isSome_iff_exists.1 hsome
    obtain ⟨n, -, hn⟩ := List.exists_of_findSome?_eq_some hfirst
    obtain ⟨rfl, rfl⟩ :=
      Text.utf8EncodeChar_append_inj (h.symm.trans (charOfFirst?_eq_some_iff.1 hn).1)
    exact hfirst

theorem takeChars_encode (n : Nat) (cs : List Char) :
    takeChars n (encode (String.ofList cs)) =
      (cs.take n, encode (String.ofList (cs.drop n))) := by
  induction n generalizing cs with
  | zero => rw [takeChars, List.take_zero, List.drop_zero]
  | succ n ih =>
    cases cs with
    | nil => rfl
    | cons c cs =>
      have hfirst := firstChar?_eq_some_iff.2 (Text.encode_ofList_cons c cs)
      rw [takeChars, hfirst]
      simp only [ih, List.take_succ_cons, List.drop_succ_cons]

/-! ## Lines -/

/-- A line goes up to the first line feed, which is left out, or up to the end. -/
theorem splitLine_cases (cs : List Char) :
    '\n' ∉ (splitLine cs).1 ∧
      (cs = (splitLine cs).1 ++ '\n' :: (splitLine cs).2 ∨
        cs = (splitLine cs).1 ∧ (splitLine cs).2 = []) := by
  induction cs with
  | nil => exact ⟨List.not_mem_nil, .inr ⟨rfl, rfl⟩⟩
  | cons c cs ih =>
    rw [splitLine]
    split
    · rename_i hc
      rw [hc]
      exact ⟨List.not_mem_nil, .inl rfl⟩
    · rename_i hc
      obtain ⟨hmem, hcases⟩ := ih
      refine ⟨List.not_mem_cons_of_ne_of_not_mem (Ne.symm hc) hmem, ?_⟩
      rcases hcases with hfeed | ⟨hend, hempty⟩
      · exact .inl (congrArg (c :: ·) hfeed)
      · exact .inr ⟨congrArg (c :: ·) hend, hempty⟩

theorem splitLineBytes_append {bytes : Bytes} (h : 10 ∉ bytes) (rest : Bytes) :
    splitLineBytes (bytes ++ rest) =
      (bytes ++ (splitLineBytes rest).1, (splitLineBytes rest).2) := by
  induction bytes with
  | nil => rfl
  | cons b bytes ih =>
    obtain ⟨hb, hbytes⟩ := List.ne_and_not_mem_of_not_mem_cons h
    rw [List.cons_append, splitLineBytes, if_neg (Ne.symm hb), ih hbytes]
    rfl

theorem ten_not_mem_encode {cs : List Char} (h : '\n' ∉ cs) :
    10 ∉ encode (String.ofList cs) := by
  rw [Text.encode_ofList]
  intro hmem
  obtain ⟨c, hc, hten⟩ := List.mem_flatMap.1 hmem
  have hnat : c.toNat = 10 := (Text.mem_utf8EncodeChar_iff (by decide)).1 hten
  have heq : c = '\n' := Char.toNat_inj.1 hnat
  exact h (heq ▸ hc)

/-- A line of a stream is the line of the text, with the line feed at its end if there is one. -/
theorem splitLineBytes_encode (cs : List Char) : ∃ feed, (feed = [] ∨ feed = ['\n']) ∧
    splitLineBytes (encode (String.ofList cs)) =
      (encode (String.ofList ((splitLine cs).1 ++ feed)),
        encode (String.ofList (splitLine cs).2)) := by
  obtain ⟨hmem, hcases⟩ := splitLine_cases cs
  have hten := ten_not_mem_encode hmem
  have hfeed : encode (String.ofList ['\n']) = [10] := by decide
  rcases hcases with heq | ⟨heq, hempty⟩
  · refine ⟨['\n'], .inr rfl, ?_⟩
    conv_lhs => rw [heq]
    rw [Text.encode_ofList_append, splitLineBytes_append hten, ← List.singleton_append,
      Text.encode_ofList_append, Text.encode_ofList_append, hfeed]
    rfl
  · refine ⟨[], .inl rfl, ?_⟩
    have hnil : encode (String.ofList []) = [] := rfl
    conv_lhs => rw [heq]
    rw [hempty, hnil, List.append_nil, ← List.append_nil (encode _), splitLineBytes_append hten]
    rfl

def dropReturns (line : String) : String :=
  String.ofList (line.toList.rdropWhile (· = '\r'))

theorem trimLineEnd_of_not_mem {line : List Char} (h : '\n' ∉ line) :
    trimLineEnd line = line.rdropWhile (· = '\r') := by
  change line.rdropWhile (fun c => c = '\n' || c = '\r') = _
  induction line using List.reverseRecOn with
  | nil => rfl
  | append_singleton line c ih =>
    rw [List.mem_append, not_or, List.mem_singleton] at h
    have hfeed : c ≠ '\n' := Ne.symm h.2
    by_cases hc : c = '\r'
    · rw [List.rdropWhile_concat_pos _ _ _ (by simp [hc]),
        List.rdropWhile_concat_pos _ _ _ (by simp [hc]), ih h.1]
    · rw [List.rdropWhile_concat_neg _ _ _ (by simp [hc, hfeed]),
        List.rdropWhile_concat_neg _ _ _ (by simp [hc])]

theorem trimLineEnd_append {line feed : List Char} (h : '\n' ∉ line)
    (hfeed : feed = [] ∨ feed = ['\n']) :
    trimLineEnd (line ++ feed) = line.rdropWhile (· = '\r') := by
  rcases hfeed with rfl | rfl
  · rw [List.append_nil, trimLineEnd_of_not_mem h]
  · rw [← trimLineEnd_of_not_mem h]
    exact List.rdropWhile_concat_pos _ _ _ rfl

/-! ## Single reads -/

theorem readLine_scripted {cs : List Char} (h : cs ≠ []) : readLine (.scripted cs) =
    .ok (String.ofList (splitLine cs).1) (.scripted (splitLine cs).2) := by
  cases cs with
  | nil => exact absurd rfl h
  | cons c cs => rfl

theorem readLine_stream {bytes : Bytes} {line : String} (h : bytes ≠ [])
    (hline : Text.decode? (splitLineBytes bytes).1 = some line) : readLine (.stream bytes) =
      .ok (String.ofList (trimLineEnd line.toList)) (.stream (splitLineBytes bytes).2) := by
  cases bytes with
  | nil => exact absurd rfl h
  | cons b bytes =>
    simp only [readLine, Stateful.get_bind, hline]
    rfl

theorem readLine_encode {cs : List Char} (h : cs ≠ []) :
    readLine (.stream (encode (String.ofList cs))) =
      .ok (dropReturns (String.ofList (splitLine cs).1))
        (.stream (encode (String.ofList (splitLine cs).2))) := by
  obtain ⟨feed, hfeed, hsplit⟩ := splitLineBytes_encode cs
  have hbytes : encode (String.ofList cs) ≠ [] := by
    obtain ⟨c, cs, rfl⟩ := List.exists_cons_of_ne_nil h
    rw [Text.encode_ofList_cons]
    exact List.append_ne_nil_of_left_ne_nil String.utf8EncodeChar_ne_nil _
  have hline : Text.decode? (splitLineBytes (encode (String.ofList cs))).1 =
      some (String.ofList ((splitLine cs).1 ++ feed)) := by
    rw [hsplit, Text.decode?_encode]
  rw [readLine_stream hbytes hline, hsplit, String.toList_ofList,
    trimLineEnd_append (splitLine_cases cs).1 hfeed, dropReturns, String.toList_ofList]

theorem readChars_encode (n : Nat) (cs : List Char) :
    readChars n (.stream (encode (String.ofList cs))) =
      .ok (String.ofList (cs.take n)) (.stream (encode (String.ofList (cs.drop n)))) := by
  simp only [readChars, Stateful.get_bind, takeChars_encode]
  rfl

/-! ## Sequences of reads -/

inductive Call where
  | line
  | chars (n : Nat)
  deriving DecidableEq

namespace Call

def action : Call → InputAction String
  | line => readLine
  | chars n => readChars n

/-- The answer to a call, and the input that is left, also if the answer is an error. -/
def answer (call : Call) (input : Input) : Except ProviderError String × Input :=
  match call.action input with
  | .ok text rest => (.ok text, rest)
  | .error e rest => (.error e, rest)

/-- What becomes of the answer to a call if a line comes without carriage returns at its end. -/
def dropReturns : Call → Except ProviderError String → Except ProviderError String
  | line, answer => answer.map Input.dropReturns
  | chars _, answer => answer

/-- One call gets the same answer from a text and from its bytes, but for the carriage returns. -/
theorem answer_encode (call : Call) (cs : List Char) : ∃ rest,
    (call.answer (.scripted cs)).2 = .scripted rest ∧
      call.answer (.stream (encode (String.ofList cs))) =
        (call.dropReturns (call.answer (.scripted cs)).1,
          .stream (encode (String.ofList rest))) := by
  cases call with
  | line =>
    by_cases h : cs = []
    · rw [h]
      exact ⟨[], rfl, rfl⟩
    · refine ⟨(splitLine cs).2, ?_, ?_⟩
      · simp only [answer, action, readLine_scripted h]
      · simp only [answer, action, readLine_scripted h, readLine_encode h]
        rfl
  | chars n =>
    refine ⟨cs.drop n, rfl, ?_⟩
    simp only [answer, action, readChars_encode]
    rfl

end Call

/-- The answers to a sequence of calls. What a failing call leaves is there for the next one. -/
def answers : List Call → Input → List (Except ProviderError String)
  | [], _ => []
  | call :: calls, input => (call.answer input).1 :: answers calls (call.answer input).2

theorem length_answers (calls : List Call) (input : Input) :
    (answers calls input).length = calls.length := by
  induction calls generalizing input with
  | nil => rfl
  | cons call calls ih => exact congrArg (· + 1) (ih _)

theorem answers_encode (calls : List Call) (cs : List Char) :
    answers calls (.stream (encode (String.ofList cs))) =
      List.zipWith Call.dropReturns calls (answers calls (.scripted cs)) := by
  induction calls generalizing cs with
  | nil => rfl
  | cons call calls ih =>
    obtain ⟨rest, hrest, hcall⟩ := call.answer_encode cs
    rw [answers, answers, hcall, hrest, List.zipWith_cons_cons, ih rest]

theorem dropReturns_eq_self_iff (line : String) :
    dropReturns line = line ↔ line.toList.getLast? ≠ some '\r' := by
  rw [← String.toList_inj, dropReturns, String.toList_ofList, List.rdropWhile_eq_self_iff]
  by_cases h : line.toList = []
  · simp [h]
  · simp [h, List.getLast?_eq_some_getLast h]

theorem Call.dropReturns_eq_self_iff (call : Call) (answer : Except ProviderError String) :
    call.dropReturns answer = answer ↔
      ∀ line, (call, answer) = (.line, .ok line) → line.toList.getLast? ≠ some '\r' := by
  cases call with
  | chars n => simp [dropReturns]
  | line =>
    cases answer with
    | error e => simp [dropReturns, Except.map]
    | ok line => simp [dropReturns, Except.map, Input.dropReturns_eq_self_iff]

theorem zipWith_eq_right_iff {α β : Type} {f : α → β → β} {as : List α} {bs : List β}
    (h : bs.length = as.length) : List.zipWith f as bs = bs ↔ ∀ p ∈ as.zip bs, f p.1 p.2 = p.2 := by
  induction as generalizing bs with
  | nil => simp [List.length_eq_zero_iff.1 h]
  | cons a as ih =>
    cases bs with
    | nil => simp
    | cons b bs =>
      have hlen : bs.length = as.length := Nat.succ.inj h
      simp [ih hlen]

/-- A stream of a text and the text itself give the same answers, but that the stream gives lines
without the carriage returns at their ends. So the answers are the same if there are none. -/
theorem answers_stream_encode (text : String) (calls : List Call) :
    answers calls (.stream (encode text)) =
      List.zipWith Call.dropReturns calls (answers calls (.scripted text.toList)) ∧
    (answers calls (.stream (encode text)) = answers calls (.scripted text.toList) ↔
      ∀ line, (.line, .ok line) ∈ calls.zip (answers calls (.scripted text.toList)) →
        line.toList.getLast? ≠ some '\r') := by
  have hanswers : answers calls (.stream (encode text)) =
      List.zipWith Call.dropReturns calls (answers calls (.scripted text.toList)) := by
    rw [← answers_encode, String.ofList_toList]
  refine ⟨hanswers, ?_⟩
  rw [hanswers, zipWith_eq_right_iff (length_answers _ _)]
  constructor
  · intro h line hmem
    exact (Call.dropReturns_eq_self_iff _ _).1 (h _ hmem) line rfl
  · rintro h ⟨call, answer⟩ hmem
    refine (Call.dropReturns_eq_self_iff call answer).2 fun line heq => h line (heq ▸ hmem)

theorem answers_stream_encode_mixed :
    answers [.chars 1, .line, .line, .chars 1, .line, .line] (.stream (encode "é\r\n\nab\r")) =
      [.ok "é", .ok "", .ok "", .ok "a", .ok "b", .error .endOfInput] ∧
    answers [.line, .chars 3, .line] (.stream (encode "é\nb")) =
      answers [.line, .chars 3, .line] (.scripted "é\nb".toList) := by
  refine ⟨(answers_stream_encode _ _).1.trans (by decide +kernel), ?_⟩
  refine (answers_stream_encode _ _).2.2 fun line hmem => ?_
  have hanswers : answers [.line, .chars 3, .line] (.scripted "é\nb".toList) =
      [.ok "é", .ok "b", .error .endOfInput] := by
    decide +kernel
  rw [hanswers] at hmem
  obtain rfl : line = "é" := by simpa using hmem
  decide

/-- A line that ends in a carriage return is not the same from both, whether a line feed follows or
the input ends there. -/
theorem answers_carriage_return :
    answers [.line] (.stream (encode "a\r\nb")) = [.ok "a"] ∧
    answers [.line] (.scripted "a\r\nb".toList) = [.ok "a\r"] ∧
    answers [.line] (.stream (encode "a\r")) = [.ok "a"] ∧
    answers [.line] (.scripted "a\r".toList) = [.ok "a\r"] ∧
    ¬∀ (text : String) (calls : List Call),
      answers calls (.stream (encode text)) = answers calls (.scripted text.toList) := by
  have hstream : answers [.line] (.stream (encode "a\r")) = [.ok "a"] := by
    decide +kernel
  have hscripted : answers [.line] (.scripted "a\r".toList) = [.ok "a\r"] := by
    decide +kernel
  refine ⟨by decide +kernel, by decide +kernel, hstream, hscripted, fun h => ?_⟩
  have heq := h "a\r" [.line]
  rw [hstream, hscripted] at heq
  revert heq
  decide

end CellMachine.Input
