import CellMachine.Proofs.Machine.Disguise

/-!
# The sink as an observer

This module proves that a run does not depend on whether a sink is attached, as long as every write
that it dispatches asks for a text that its value has. The exception is by design: a value is
rendered for a sink only, so that a value without a text in the form asked for is a fault if a sink
is attached, and none if nothing is listening. With detached threads, two runs can be compared if
their threads have their turns in the same order; without them the order does not matter.
-/

namespace CellMachine

/-- Whether the value that a write is about has a text in the form that the write asks for. A float
has four bytes; the other forms take values of every length. -/
def Instruction.Renders (i : Instruction) (t : Focus) : Prop :=
  ∀ form slot v, i.address 1 = .ok form → t.slot? = some slot →
    i.value slot.memory 0 = .ok v → form.toNat = 3 → v.length = 4

/-- Every write that is dispatched along a schedule asks for a text that its value has. -/
def Machine.RendersAll (o : Options) (m : Machine) (es : List Event) : Prop :=
  ∀ x ∈ m.history o es, ∀ n i t, x.2 = .turn n → x.1.Dispatches o n i t →
    Opcode.ofCode? i.opcode = some .write → i.Renders t

def Machine.mute (m : Machine) : Machine := { m with world := { m.world with sink := none } }

namespace Disguise

/-- Without a sink. The sink that is taken away must not refuse anything. -/
def silence : Disguise where
  sink := fun _ => none
  primary := id
  Suits := fun sink _ _ => ∀ k, sink = some k → k.refuses = none

variable {s : Focus}

/-- Printing changes nothing but the sink, which keeps taking everything. -/
theorem silence_print (h : silence.Fits s.world) (text : String) :
    silence.Mirrors s (Guarded.print text) (Guarded.print text) := by
  cases hsink : s.world.sink with
  | none =>
    have hprint : Guarded.print text s = .ok () s := by
      rw [Guarded.print, Stateful.get_bind, hsink]
      rfl
    exact mirrors_of_ok hprint h rfl
  | some k =>
    have hrefuses : k.refuses = none := h k hsink
    have hwrite : k.write text = .ok { k with lines := k.lines ++ [text] } := by
      simp [Sink.write, hrefuses]
    have hprint : Guarded.print text s = .ok () { s with world := { s.world with
        sink := some { k with lines := k.lines ++ [text] } } } := by
      rw [Guarded.print, Stateful.get_bind, hsink]
      simp only [hwrite]
      rfl
    refine mirrors_of_ok hprint ?_ rfl
    intro k' hk'
    cases hk'
    exact hrefuses

theorem silence_provider (h : silence.Fits s.world) :
    silence.Mirrors s Action.provider Action.provider := by
  refine .get ?_
  rw [focus_exec, focus_bundle]
  cases s.exec.usesBundle with
  | true =>
    cases s.world.bundle with
    | some p => exact .pure h p
    | none => exact .throw h _
  | false => exact .pure h _

theorem silence_setStorage (h : silence.Fits s.world) (storage : Storage) :
    silence.Mirrors s (Action.setStorage storage) (Action.setStorage storage) := by
  refine Mirrors.modify ?_ ?_
  · cases s.exec.usesBundle <;> exact h
  · rw [focus_exec]
    cases s.exec.usesBundle <;> rfl

theorem silence_onFiles {α : Type} (h : silence.Fits s.world) (a : FileAction α) :
    silence.Mirrors s (Action.onFiles a) (Action.onFiles a) := by
  refine (silence_provider h).bind fun p s' _ hfits => .get ?_
  rw [focus_host]
  cases a.run ⟨p, s'.world.host⟩ with
  | ok v storage => exact (silence_setStorage hfits storage).return v
  | error e storage =>
    exact (silence_setStorage hfits storage).bind fun _ _ _ hfits => .throw hfits _

theorem silence_covers (o : Options) : silence.Covers o o.superuser where
  print _ text h := silence_print h text
  check _ _ _ h := .get (.ofExcept h _)
  read _ _ h := silence_onFiles h _
  write _ _ _ h := silence_onFiles h _
  delete _ _ h := silence_onFiles h _
  list _ h := silence_onFiles h _
  runCommand _ _ h := silence_onFiles h _

theorem exists_rendering {form : UInt32} {v : Bytes} (hv : form.toNat = 3 → v.length = 4) :
    ∃ text, Action.rendering form v = .ok text := by
  unfold Action.rendering
  split
  · exact ⟨_, rfl⟩
  · exact ⟨_, rfl⟩
  · exact ⟨_, rfl⟩
  · rename_i hform
    have hfloat : Cell.float v = .ok ⟨v.toWord⟩ := if_pos (hv hform)
    rw [hfloat]
    exact ⟨_, rfl⟩
  · exact ⟨_, rfl⟩
  · exact ⟨_, rfl⟩

/-- A rendering that cannot fail only matters for what is printed. -/
theorem silence_announce (h : silence.Fits s.world) {form : UInt32} {v : Bytes}
    (hv : form.toNat = 3 → v.length = 4) :
    silence.Mirrors s (Action.announce form v) (Action.announce form v) := by
  -- Without a sink the rendering is not even asked for, so it must be one that cannot fail.
  obtain ⟨text, htext⟩ := exists_rendering hv
  cases hsink : s.world.sink with
  | none =>
    have hidle : Action.announce form v s = .ok .next s := by
      rw [Action.announce, Stateful.get_bind, hsink]
      rfl
    exact mirrors_of_ok hidle h rfl
  | some k =>
    cases text with
    | some text =>
      refine ((mirrors_print (silence_covers {}) h text).return Flow.next).congr ?_ rfl
      rw [Action.announce, Stateful.get_bind, hsink]
      simp only [Option.isSome_some, if_true, htext]
      rfl
    | none =>
      refine (Mirrors.pure h Flow.next).congr ?_ rfl
      rw [Action.announce, Stateful.get_bind, hsink]
      simp only [Option.isSome_some, if_true, htext]
      rfl

theorem silence_write (h : silence.Fits s.world) {i : Instruction} (hi : i.Renders s) :
    silence.Mirrors s (Action.write i) (Action.write i) := by
  rw [Action.write_eq]
  refine (Mirrors.ofExcept h _).bind fun form t ht hfits => ?_
  obtain ⟨hform, rfl⟩ := Action.ofExcept_eq_ok_iff.1 ht
  refine (mirrors_reading hfits _).bind fun v t hread hfits => ?_
  obtain ⟨rfl, slot, hslot, hvalue⟩ := Action.reading_eq_ok_iff.1 hread
  -- Nothing has changed up to here, so that the condition is about this value.
  have hv := hi form slot v hform hslot hvalue
  split
  · exact (mirrors_emit hfits v).bind fun _ _ _ hfits => silence_announce hfits hv
  · exact silence_announce hfits hv

end Disguise

/-- A machine with a sink that takes everything and one without it do the same in the same order of
events, but for the printed texts, provided that every write that is dispatched asks for a text that
its value has. If no thread is detached, they come to the same end in whatever orders their threads
have their turns. -/
theorem Machine.play_mute (o : Options) (world : World) (p : Program) (active : UInt32)
    (hsink : ∀ k, world.sink = some k → k.refuses = none) :
    let m := Machine.start o world p active
    (∀ es, m.RendersAll o es → m.mute.play o es = (m.play o es).mute) ∧
      ∀ ns ns' : List Nat, m.RendersAll o (ns.map .turn) →
        (m.play o (ns.map .turn)).detached = [] → (m.play o (ns.map .turn)).mainEnded = true →
        (m.mute.play o (ns'.map .turn)).mainEnded = true →
          m.mute.play o (ns'.map .turn) = (m.play o (ns.map .turn)).mute := by
  intro m
  have hcovers := Disguise.silence_covers o
  have hfits : Disguise.silence.Fits m.world := hsink
  have hwrite {es : List Event} (hrenders : m.RendersAll o es) :
      ∀ x ∈ m.history o es, ∀ n i t, x.2 = .turn n → Disguise.silence.Fits t.world →
        x.1.Dispatches o n i t → Opcode.ofCode? i.opcode = some .write →
        Disguise.silence.Mirrors t (Action.write i) (Action.write i) :=
    fun x hx n i t hn ht hi hop => Disguise.silence_write ht (hrenders x hx n i t hn hi hop)
  refine ⟨fun es hrenders => ?_, fun ns ns' hrenders hdetached hended hended' => ?_⟩
  · exact Disguise.play_machine hcovers hfits (hwrite hrenders)
  · exact Disguise.play_machine_of_sequential hcovers hfits (sequential_start o world p active)
      (hwrite hrenders) hdetached hended hended'

/-- A program that puts a value into a cell and writes it as a float. -/
def Program.writeAsFloat (v : Bytes) : Program :=
  .ofList [⟨0, 2, [v, [0, 0, 0, 0]]⟩, ⟨1, 30, [[0, 0, 0, 0], [0, 0, 0, 3]]⟩]

/-- Four bytes are a float. -/
theorem Machine.play_mute_one :
    let m := Machine.start {} { sink := some {} } (.writeAsFloat [63, 128, 0, 0]) 0
    (∀ k, some ({} : Sink) = some k → k.refuses = none) ∧
      (m.play {} (List.replicate 3 (.turn 0))).mainEnded = true ∧
      m.mute.play {} ([1, 0, 0, 2, 0].map .turn) = (m.play {} ([0, 0, 0].map .turn)).mute := by
  intro m
  have hsink : ∀ k, some ({} : Sink) = some k → k.refuses = none := by
    rintro k ⟨⟩
    rfl
  have hrenders : m.RendersAll {} ([0, 0, 0].map .turn) := by
    intro x hx n i t hn ⟨e, callers, hthread, hi⟩ hop
    rcases hx with _ | ⟨_, _ | ⟨_, _ | ⟨_, hx⟩⟩⟩
    · -- The first instruction is no write.
      cases hn
      cases (Option.some.inj hthread :
        Thread.running { program := .writeAsFloat [63, 128, 0, 0], active := 0 } [] = _)
      cases Option.some.inj hi.instruction
      cases hop
    · cases hn
      cases (Option.some.inj hthread : Thread.running
        { program := .writeAsFloat [63, 128, 0, 0], ip := 1, active := 0, steps := 1 } [] = _)
      cases Option.some.inj hi.instruction
      cases (hi.before : EStateM.Result.ok ()
        (⟨_, { program := .writeAsFloat [63, 128, 0, 0], ip := 1, active := 0, steps := 2 }⟩ :
          Focus) = _)
      intro form slot v _ hslot hv _
      cases Option.some.inj hslot
      cases (hv : Except.ok ([63, 128, 0, 0] : Bytes) = .ok v)
      rfl
    · -- The third turn finds no instruction any more.
      cases hn
      cases (Option.some.inj hthread : Thread.running
        { program := .writeAsFloat [63, 128, 0, 0], ip := 2, active := 0, steps := 2,
          output := [63, 128, 0, 0] } [] = _)
      cases hi.instruction
    · cases hx
  have hplay := Machine.play_mute {} { sink := some {} } (.writeAsFloat [63, 128, 0, 0]) 0 hsink
  exact ⟨hsink, rfl, hplay.2 [0, 0, 0] [1, 0, 0, 2, 0] hrenders rfl rfl rfl⟩

/-- Three bytes are no float, which is a fault only if somebody listens. -/
theorem Machine.errored_of_unrendered_write :
    let m := Machine.start {} { sink := some {} } (.writeAsFloat [97, 98, 99]) 0
    ((m.mute.play {} (List.replicate 3 (.turn 0))).ending? 0).map
        (fun x => x.1.toOption.map (·.errored)) = some (some false) ∧
      ((m.play {} (List.replicate 3 (.turn 0))).ending? 0).map
        (fun x => x.1.toOption.map (·.errored)) = some (some true) :=
  ⟨rfl, rfl⟩

end CellMachine
