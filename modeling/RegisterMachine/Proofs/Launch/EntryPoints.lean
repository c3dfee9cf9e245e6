import Mathlib.Data.Option.Basic
import RegisterMachine.Proofs.Emission
import RegisterMachine.Proofs.Launch
import RegisterMachine.Proofs.Messages
import RegisterMachine.Sink.Media

/-!
# Two ways to run bytes

A program given as bytes can be run on its own, or launched from a standard input that has these bytes. The
two are put together separately and report their failures differently; this module says how what one
answers is found in what the other answers.

* **`Matches`** — the results that go together, and what the sink of the launch has seen beyond that of the
  run: a last flush, unless the run failed.
* **`Agrees`** — the same in the texts of the launch. The errors of the run can be read off them.
* **`entry_points_agree`** — both end or neither does, and their ends agree.
-/

namespace RegisterMachine

namespace EncodedRun

variable {μ : Type} [Medium μ]

/-- The ends of a run of bytes and of a launch that go together. Before the run nothing has happened to
either sink. -/
inductive Matches (medium : μ) : EncodedRun μ → Launch μ → Prop where
  | rejected (e : DecodeError) (events : Array Event) :
      Matches medium ⟨.error (.decode e), { medium }⟩ ⟨.error (.decoding .stdin e), { medium }, events⟩
  | stopped (e : ExecutionError) (sink : Sink μ) (events : Array Event) :
      Matches medium ⟨.error (.exec e), sink⟩ ⟨.error (.executing .stdin e), sink, events⟩
  | unflushed (steps : UInt64) {fault : Fault} {sink : Sink μ} (events : Array Event)
      (hflush : sink.flush.1 = .error fault) :
      Matches medium ⟨.ok steps, sink⟩ ⟨.error (.flushing fault), sink.flush.2, events⟩
  | completed (steps : UInt64) {sink : Sink μ} (events : Array Event) (hflush : sink.flush.1 = .ok ()) :
      Matches medium ⟨.ok steps, sink⟩ ⟨.ok steps, sink.flush.2, events⟩

theorem matches_ofRun (medium : μ) (run : Run μ) (events : Array Event) :
    Matches medium ⟨run.result.mapError .exec, run.machine.sink⟩
      (Launch.ofRun .stdin { run with events }) := by
  obtain ⟨result, hresult⟩ : ∃ result, run.result = result := ⟨_, rfl⟩
  cases result with
  | error e =>
    rw [Launch.ofRun_of_error hresult, hresult]
    exact .stopped e _ _
  | ok steps =>
    rw [Launch.ofRun_of_ok hresult, hresult]
    cases hflush : run.machine.sink.flush.1 with
    | error fault => exact .unflushed steps _ hflush
    | ok _ => exact .completed steps _ hflush

/-- Both end within the budget or neither does, and their ends go together. -/
theorem matches_launch (budget : Nat) (bytes : List UInt8) (files : FileSystem) (medium : μ) :
    Option.Rel (Matches medium) (runEncoded budget bytes medium)
      (launch budget { stdin := { bytes }, files } .stdin medium) := by
  have hread : Sources.Delivers { stdin := { bytes }, files } .stdin (.ok bytes) := .stdin rfl
  cases hdecode : Program.decode bytes with
  | error e =>
    rw [runEncoded, hdecode, Launch.launch_of_decode_error hread hdecode]
    exact .some (.rejected e _)
  | ok program =>
    rw [runEncoded, Launch.launch_of_decode_ok hread hdecode]
    simp only [hdecode]
    cases (Machine.start program medium).run budget with
    | none => exact .none
    | some run => exact .some (matches_ofRun medium run _)

/-! ## In the texts of the launch -/

/-- How the end of a launch shows the end of the run of the same bytes. -/
structure Agrees (r : EncodedRun μ) (l : Launch μ) : Prop where
  stored : l.sink.stored = r.sink.stored
  returned : ∀ steps, r.result = .ok steps →
    l.result = .ok steps ∨ ∃ fault, r.sink.flush.1 = .error fault ∧
      l.chain? = some ("flushing program output" :: fault.text :: fault.sources)
  reported : ∀ steps, l.result = .ok steps → r.result = .ok steps
  unflushed : ∀ causes, l.chain? = some ("flushing program output" :: causes) →
    ∃ steps, r.result = .ok steps
  decode : ∀ e, r.result = .error (.decode e) ↔ l.chain? = some ["decoding <stdin>", e.message]
  exec : ∀ e, r.result = .error (.exec e) ↔
    l.chain? = some ("executing <stdin>" :: e.message :: e.sources)
  execMessage : ∀ e, (∃ e', r.result = .error (.exec e') ∧ e'.Alike e) ↔
    ∃ causes, l.chain? = some ("executing <stdin>" :: e.message :: causes)
  flushes : l.sink.flushes = r.sink.flushes + if r.result.isOk then 1 else 0

variable {medium : μ} {r : EncodedRun μ} {l : Launch μ}

theorem Matches.decode_iff (h : Matches medium r l) (e : DecodeError) :
    r.result = .error (.decode e) ↔ l.chain? = some ["decoding <stdin>", e.message] := by
  constructor
  · intro hresult
    cases h <;> cases hresult
    rfl
  · intro hchain
    obtain ⟨_, hresult, hphase, hcauses⟩ :=
      Launch.phase_of_chain? (p := .decoding) hchain (by simp [LaunchError.Phase.initial])
    -- the phase leaves one way to end, and there the message tells the error
    cases h <;> cases hresult <;> cases hphase
    rw [DecodeError.message_injective (List.cons.inj hcauses).1]

/-- The texts behind the first one are those of the error. -/
theorem Matches.exists_exec (h : Matches medium r l) {causes : List String}
    (hchain : l.chain? = some ("executing <stdin>" :: causes)) :
    ∃ e, r.result = .error (.exec e) ∧ e.chain = causes := by
  obtain ⟨_, hresult, hphase, hcauses⟩ :=
    Launch.phase_of_chain? (p := .executing) hchain (by simp [LaunchError.Phase.initial])
  cases h <;> cases hresult <;> cases hphase
  exact ⟨_, rfl, hcauses⟩

theorem Matches.exec_iff (h : Matches medium r l) (e : ExecutionError) :
    r.result = .error (.exec e) ↔ l.chain? = some ("executing <stdin>" :: e.message :: e.sources) := by
  constructor
  · intro hresult
    cases h <;> cases hresult
    rfl
  · intro hchain
    obtain ⟨e', hresult, hcauses⟩ := h.exists_exec hchain
    rw [hresult, ExecutionError.eq_of_chain_eq hcauses]

theorem Matches.execMessage_iff (h : Matches medium r l) (e : ExecutionError) :
    (∃ e', r.result = .error (.exec e') ∧ e'.Alike e) ↔
      ∃ causes, l.chain? = some ("executing <stdin>" :: e.message :: causes) := by
  constructor
  · rintro ⟨e', hresult, halike⟩
    refine ⟨e'.sources, ?_⟩
    rw [← ExecutionError.message_eq_iff.mpr halike]
    exact (h.exec_iff e').mp hresult
  · rintro ⟨causes, hchain⟩
    obtain ⟨e', hresult, hcauses⟩ := h.exists_exec hchain
    exact ⟨e', hresult, ExecutionError.alike_of_message_eq (List.cons.inj hcauses).1⟩

theorem Matches.flushing (h : Matches medium r l) {causes : List String}
    (hchain : l.chain? = some ("flushing program output" :: causes)) :
    ∃ steps, r.result = .ok steps := by
  obtain ⟨_, hresult, hphase, _⟩ :=
    Launch.phase_of_chain? (p := .flushing) hchain (by simp [LaunchError.Phase.initial])
  cases h <;> cases hresult <;> cases hphase
  exact ⟨_, rfl⟩

theorem Matches.agrees (h : Matches medium r l) : Agrees r l := by
  constructor
  case decode => exact h.decode_iff
  case exec => exact h.exec_iff
  case execMessage => exact h.execMessage_iff
  case unflushed => exact fun causes => h.flushing
  case returned =>
    intro steps hresult
    cases h with
    | rejected | stopped => cases hresult
    | unflushed _ _ hflush => exact .inr ⟨_, hflush, rfl⟩
    | completed =>
      cases hresult
      exact .inl rfl
  case reported =>
    intro steps hresult
    cases h <;> cases hresult
    rfl
  case stored =>
    cases h with
    | rejected | stopped => rfl
    | unflushed | completed => exact Sink.stored_flush _
  case flushes =>
    cases h with
    | rejected | stopped => rfl
    | unflushed | completed => exact Sink.flushes_flush _

/-- **The two entry points agree.** Running bytes and launching them from standard input both end within a
budget or neither does, and how one ends shows how the other does. Bytes that are no program leave both
sinks as they are. -/
theorem entry_points_agree (budget : Nat) (bytes : List UInt8) (files : FileSystem) (medium : μ) :
    Option.Rel Agrees (runEncoded budget bytes medium)
      (launch budget { stdin := { bytes }, files } .stdin medium) ∧
    ∀ e, Program.decode bytes = .error e → ∃ r l, runEncoded budget bytes medium = some r ∧
      launch budget { stdin := { bytes }, files } .stdin medium = some l ∧ r.sink = { medium } ∧
        l.sink = { medium } := by
  constructor
  · match runEncoded budget bytes medium, launch budget { stdin := { bytes }, files } .stdin medium,
      matches_launch budget bytes files medium with
    | _, _, .some h => exact .some h.agrees
    | _, _, .none => exact .none
  · intro e hdecode
    exact ⟨_, _, by rw [runEncoded, hdecode], Launch.launch_of_decode_error (.stdin rfl) hdecode, rfl,
      rfl⟩

/-- The flush of the only print works out, and the last flush does not. A code byte without its operand is no
program. -/
theorem entry_points_agree_unflushed :
    let b : Bounded := { failingFlushes := [1] }
    (∃ r l, runEncoded 2 [0x12, 0x45, 7] b = some r ∧
      launch 2 { stdin := { bytes := [0x12, 0x45, 7] } } .stdin b = some l ∧ r.result = .ok 1 ∧
      l.chain? = some ["flushing program output", "closed"] ∧
      l.sink.stored = r.sink.stored ∧ l.sink.flushes = r.sink.flushes + 1) ∧
    ∃ r l, runEncoded 2 [0x12] b = some r ∧
      launch 2 { stdin := { bytes := [0x12] } } .stdin b = some l ∧ r.sink = { medium := b } ∧
      l.sink = { medium := b } := by
  intro b
  constructor
  · have hrun : (runEncoded 2 [0x12, 0x45, 7] b).map (·.result.toOption) = some (some 1) := by
      decide +kernel
    have hflush : (launch 2 { stdin := { bytes := [0x12, 0x45, 7] } } .stdin b).map Launch.chain? =
        some (some ["flushing program output", "closed"]) := by decide +kernel
    obtain ⟨r, hr, hreturned⟩ := Option.map_eq_some_iff.mp hrun
    obtain ⟨l, hl, hchain⟩ := Option.map_eq_some_iff.mp hflush
    have hresult : r.result = .ok 1 := Machine.toOption_eq_some_iff.mp hreturned
    have hagrees := (entry_points_agree 2 [0x12, 0x45, 7] (.ofPaths [] []) b).1
    rw [hr, hl, Option.rel_some_some] at hagrees
    refine ⟨r, l, hr, hl, hresult, hchain, hagrees.stored, ?_⟩
    rw [hagrees.flushes, hresult]
    rfl
  · have hdecode : Program.decode [0x12] = .error (.truncated .printNumber 0 2 0) := by cbv
    exact (entry_points_agree 2 [0x12] (.ofPaths [] []) b).2 _ hdecode

end EncodedRun

end RegisterMachine
