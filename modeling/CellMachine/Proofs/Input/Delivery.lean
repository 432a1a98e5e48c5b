import CellMachine.Proofs.Input

/-!
# What known input delivers

This module proves that known input is delivered once, in order and with nothing lost
(`scripted_delivered_once`), in whatever mix lines and numbers of characters are read.

A line comes without the line feed that ended it, so the answers alone do not tell the text: a last
line is the same with a line feed and without one. What a read takes is therefore told by its answer
together with the input that it was made on.
-/

namespace CellMachine.Input

/-! ## Sequences of reads with their inputs -/

def hasFeed : Input → Bool
  | scripted rest => '\n' ∈ rest
  | stream rest => 10 ∈ rest

/-- A call with the input that it was made on, its answer, and the input that it left. -/
structure Read where
  call : Call
  before : Input
  answer : Except ProviderError String
  after : Input
  deriving DecidableEq

def Call.read (call : Call) (input : Input) : Read :=
  ⟨call, input, (call.answer input).1, (call.answer input).2⟩

/-- The reads of a sequence of calls, each on the input that the one before it has left. -/
def reads : List Call → Input → List Read
  | [], _ => []
  | call :: calls, input => call.read input :: reads calls (call.read input).after

def left : List Call → Input → Input
  | [], input => input
  | call :: calls, input => left calls (call.read input).after

namespace Read

/-- What a read has taken from the input: what it gave, and behind a line also the line feed, unless
the line was ended by the end of the input. -/
def taken (r : Read) : List Char :=
  match r.call, r.answer with
  | _, .error _ => []
  | .chars _, .ok text => text.toList
  | .line, .ok line => line.toList ++ if r.before.hasFeed then ['\n'] else []

/-- What is promised of a single read. A line has no line feed in it, and the input is exhausted by
it if there was no line feed to end it. It is refused if and only if nothing is left, and nothing is
taken then. Characters are never refused, and there are as many as are asked for unless the read
exhausts the input. -/
def Faithful (r : Read) : Prop :=
  match r.call with
  | .line =>
    (r.answer = .error .endOfInput ↔ r.before = .scripted []) ∧
      (∀ e, r.answer = .error e → e = .endOfInput ∧ r.after = r.before) ∧
      ∀ line, r.answer = .ok line →
        '\n' ∉ line.toList ∧ (r.before.hasFeed = true ∨ r.after = .scripted [])
  | .chars n =>
    ∃ text, r.answer = .ok text ∧ text.length ≤ n ∧ (text.length = n ∨ r.after = .scripted [])

end Read

/-! ## Single reads of known input -/

theorem splitLine_of_not_mem {cs : List Char} (h : '\n' ∉ cs) : splitLine cs = (cs, []) := by
  obtain ⟨-, hfeed | ⟨hend, hempty⟩⟩ := splitLine_cases cs
  · exact absurd (hfeed ▸ List.mem_append_right _ List.mem_cons_self) h
  · exact Prod.ext hend.symm hempty

/-- A line, the line feed behind it if there is any in the text, and what is left. -/
theorem splitLine_append (cs : List Char) :
    (splitLine cs).1 ++ (if '\n' ∈ cs then ['\n'] else []) ++ (splitLine cs).2 = cs := by
  by_cases h : '\n' ∈ cs
  · obtain ⟨hmem, hfeed | ⟨hend, -⟩⟩ := splitLine_cases cs
    · rw [if_pos h, List.append_assoc, List.singleton_append, ← hfeed]
    · -- The line would be the whole text and have its line feed.
      exact absurd (hend ▸ h) hmem
  · rw [if_neg h, splitLine_of_not_mem h, List.append_nil, List.append_nil]

theorem read_line_nil :
    Call.line.read (.scripted []) =
      ⟨.line, .scripted [], .error .endOfInput, .scripted []⟩ :=
  rfl

theorem read_line_of_ne_nil {cs : List Char} (h : cs ≠ []) :
    Call.line.read (.scripted cs) =
      ⟨.line, .scripted cs, .ok (String.ofList (splitLine cs).1), .scripted (splitLine cs).2⟩ := by
  simp only [Call.read, Call.answer, Call.action, readLine_scripted h]

theorem read_chars (n : Nat) (cs : List Char) :
    (Call.chars n).read (.scripted cs) =
      ⟨.chars n, .scripted cs, .ok (String.ofList (cs.take n)), .scripted (cs.drop n)⟩ :=
  rfl

/-- A call takes what is in front of the input and leaves what is behind it. -/
theorem Call.taken_append (call : Call) (cs : List Char) : ∃ rest,
    (call.read (.scripted cs)).after = .scripted rest ∧
      (call.read (.scripted cs)).taken ++ rest = cs := by
  cases call with
  | line =>
    by_cases h : cs = []
    · rw [h]
      exact ⟨[], rfl, rfl⟩
    · rw [read_line_of_ne_nil h]
      refine ⟨_, rfl, ?_⟩
      simpa [Read.taken, hasFeed] using splitLine_append cs
  | chars n =>
    rw [read_chars]
    exact ⟨_, rfl, by simp [Read.taken]⟩

theorem Call.faithful (call : Call) (cs : List Char) : (call.read (.scripted cs)).Faithful := by
  cases call with
  | line =>
    by_cases h : cs = []
    · rw [h, read_line_nil]
      exact ⟨⟨fun _ => rfl, fun _ => rfl⟩, fun e he => ⟨(Except.error.inj he).symm, rfl⟩, nofun⟩
    · rw [read_line_of_ne_nil h]
      refine ⟨⟨nofun, fun hnil => absurd (scripted.inj hnil) h⟩, nofun, ?_⟩
      rintro line ⟨⟩
      rw [String.toList_ofList]
      refine ⟨(splitLine_cases cs).1, ?_⟩
      by_cases hfeed : '\n' ∈ cs
      · exact .inl (decide_eq_true hfeed)
      · exact .inr (by rw [splitLine_of_not_mem hfeed])
  | chars n =>
    rw [read_chars]
    refine ⟨_, rfl, ?_, ?_⟩
    · rw [String.length_ofList]
      exact List.length_take_le n cs
    · -- Fewer characters than asked for are all that there were.
      by_cases h : n ≤ cs.length
      · exact .inl (by rw [String.length_ofList, List.length_take_of_le h])
      · exact .inr (by rw [List.drop_eq_nil_of_le (Nat.le_of_not_le h)])

/-! ## Sequences of reads of known input -/

/-- What the reads take one after the other and what is left make up the text. -/
theorem flatMap_taken_append (calls : List Call) (cs : List Char) : ∃ rest,
    left calls (.scripted cs) = .scripted rest ∧
      (reads calls (.scripted cs)).flatMap Read.taken ++ rest = cs := by
  induction calls generalizing cs with
  | nil => exact ⟨cs, rfl, rfl⟩
  | cons call calls ih =>
    obtain ⟨mid, hafter, htaken⟩ := call.taken_append cs
    obtain ⟨rest, hleft, hreads⟩ := ih mid
    refine ⟨rest, ?_, ?_⟩
    · rw [left, hafter, hleft]
    · rw [reads, hafter, List.flatMap_cons]
      calc
        (call.read (.scripted cs)).taken ++ (reads calls (.scripted mid)).flatMap Read.taken ++ rest
            = (call.read (.scripted cs)).taken ++
                ((reads calls (.scripted mid)).flatMap Read.taken ++ rest) :=
              List.append_assoc _ _ _
        _ = (call.read (.scripted cs)).taken ++ mid := by rw [hreads]
        _ = cs := htaken

theorem faithful_of_mem_reads {calls : List Call} {cs : List Char} {r : Read}
    (h : r ∈ reads calls (.scripted cs)) : r.Faithful := by
  induction calls generalizing cs with
  | nil => cases h
  | cons call calls ih =>
    obtain ⟨mid, hafter, -⟩ := call.taken_append cs
    rw [reads, hafter] at h
    rcases List.mem_cons.1 h with rfl | hrest
    · exact call.faithful cs
    · exact ih hrest

/-- Known input is delivered once, in order and with nothing lost. What any sequence of reads takes,
in the order of the calls, and what is left after them is exactly the text, and every single read
keeps what is promised of it. -/
theorem scripted_delivered_once (text : String) (calls : List Call) :
    (∃ rest, left calls (.scripted text.toList) = .scripted rest ∧
      (reads calls (.scripted text.toList)).flatMap Read.taken ++ rest = text.toList) ∧
    ∀ r ∈ reads calls (.scripted text.toList), r.Faithful :=
  ⟨flatMap_taken_append calls text.toList, fun _ => faithful_of_mem_reads⟩

/-- A line that characters have been read from, an empty line, and a last line that no line feed
ends. The read of the last one takes no line feed, and the one behind it is refused. -/
theorem scripted_delivered_once_last_line :
    let calls : List Call := [.chars 1, .line, .line, .line, .line]
    let input : Input := .scripted "ab\n\nc".toList
    let last : Read := ⟨.line, .scripted ['c'], .ok "c", .scripted []⟩
    answers calls input = [.ok "a", .ok "b", .ok "", .ok "c", .error .endOfInput] ∧
    (reads calls input).flatMap Read.taken = "ab\n\nc".toList ∧
    last ∈ reads calls input ∧ last.Faithful ∧ last.taken = ['c'] := by
  intro calls input last
  obtain ⟨⟨rest, hleft, htaken⟩, hfaithful⟩ := scripted_delivered_once "ab\n\nc" calls
  have hempty : left calls input = .scripted [] := by decide +kernel
  have hrest : rest = [] := scripted.inj (hleft.symm.trans hempty)
  have hmem : last ∈ reads calls input := by decide +kernel
  rw [hrest, List.append_nil] at htaken
  exact ⟨by decide +kernel, htaken, hmem, hfaithful last hmem, by decide +kernel⟩

end CellMachine.Input
