import RegisterMachine.Proofs.Effect
import RegisterMachine.Proofs.Machine.SinkIndependence

/-!
# Failures

An attempt that fails undoes nothing and finishes nothing: the machine is where it was, and only the
sink may have received a front part of the text that was to be printed.

* **`Idle`** — attempts get a machine no further, and **`Idle.performAll_eq`** — nor does any later call.
* **`Stuck`** — there is no character to print, and there never will be: no later call gets past the
  instruction, whatever happens to the medium.
* **`AtomicFailure`** — all that a failed attempt does, said for each of the two ways to fail.
* **`failures_are_atomic`** — attempts and runs that fail.
-/

namespace RegisterMachine

/-- What a machine answers to a call if its next attempt fails and will go on to fail. -/
def Call.answerWhenStuck {μ : Type} (e : ExecutionError) : Call μ → Answer
  | .step => .failed e
  | .steps 0 => .silent
  | .steps (_ + 1) => .failed e
  | .run => .failed e
  | .adjust _ => .silent

/-- What a machine answers to a call if every attempt gives the same answer, which is not that the machine
is running, and changes nothing. -/
def Call.answerWhenIdle {μ : Type} (answer : Except ExecutionError Status) : Call μ → Answer
  | .step => .ofStep answer
  | .steps 0 => .silent
  | .steps (_ + 1) => .ofStep answer
  | .run => .ofRun (answer.map fun _ => 0)
  | .adjust _ => .silent

theorem Call.answerWhenStuck_eq {μ : Type} (e : ExecutionError) :
    Call.answerWhenStuck e = Call.answerWhenIdle (μ := μ) (.error e) := by
  funext call
  cases call with
  | steps count => cases count <;> rfl
  | _ => rfl

/-- What calls make of a medium that no attempt uses. -/
def Call.changes {μ : Type} (calls : List (Call μ)) (medium : μ) : μ :=
  calls.foldl (fun medium call => call.change medium) medium

namespace Machine

variable {μ : Type} [Medium μ]

/-! ## Getting no further -/

/-- Attempts get the machine no further, whatever its medium is changed to: they all give the same answer,
which is not that the machine is running, and change nothing. -/
structure Idle (m : Machine μ) (answer : Except ExecutionError Status) : Prop where
  ended : answer ≠ .ok .running
  step_adjust : ∀ change : μ → μ,
    step { m with sink := m.sink.adjust change } = (answer, { m with sink := m.sink.adjust change })

section

variable {m : Machine μ} {answer : Except ExecutionError Status}

theorem Idle.step_eq (h : m.Idle answer) : m.step = (answer, m) :=
  h.step_adjust id

theorem Idle.adjust (h : m.Idle answer) (change : μ → μ) :
    Idle { m with sink := m.sink.adjust change } answer :=
  ⟨h.ended, fun change' => h.step_adjust (change' ∘ change)⟩

theorem Idle.stepsUpTo_eq (h : m.Idle answer) (count : Nat) :
    m.stepsUpTo .silent count = (Call.answerWhenIdle (μ := μ) answer (.steps count), m) := by
  cases count with
  | zero => rfl
  | succ count =>
    have hended : m.step.1 ≠ .ok .running := by
      rw [h.step_eq]
      exact h.ended
    rw [stepsUpTo_of_ended hended, h.step_eq]
    rfl

theorem Idle.run_eq (h : m.Idle answer) (budget : Nat) :
    ∃ r, m.run (budget + 1) = some r ∧ r.result = answer.map (fun _ => 0) ∧ r.machine = m := by
  have hended : m.EndsAt 0 := by
    rw [endsAt_zero_iff, h.step_eq]
    exact h.ended
  obtain ⟨r, hr, hresult, hmachine⟩ := run_of_endsAt hended (Nat.succ_pos budget)
  rw [after, after, h.step_eq] at hmachine
  rw [after, after, after, h.step_eq, UInt64.sub_self] at hresult
  exact ⟨r, hr, hresult, hmachine⟩

theorem Idle.perform_eq (h : m.Idle answer) (budget : Nat) (call : Call μ) :
    m.perform (budget + 1) call =
      some (call.answerWhenIdle answer, { m with sink := m.sink.adjust call.change }) := by
  cases call with
  | step =>
    rw [perform, h.step_eq]
    rfl
  | steps count =>
    rw [perform, h.stepsUpTo_eq]
    rfl
  | run =>
    obtain ⟨r, hr, hresult, hmachine⟩ := h.run_eq budget
    rw [perform, hr, Option.map_some, hmachine, hresult]
    rfl
  | adjust change => rfl

/-- **No later call gets the machine any further.** -/
theorem Idle.performAll_eq (h : m.Idle answer) (budget : Nat) (calls : List (Call μ)) :
    m.performAll (budget + 1) calls =
      some (calls.map (Call.answerWhenIdle answer),
        { m with sink := m.sink.adjust (Call.changes calls) }) := by
  -- each call leaves the machine idle, on another medium if this was what the call asked for
  induction calls generalizing m with
  | nil => rfl
  | cons call calls ih =>
    rw [performAll, h.perform_eq]
    simp only [ih (h.adjust call.change)]
    rfl

end

/-- The next attempt finds no character to print. -/
def Stuck (m : Machine μ) (value : Word) (pc : Nat) : Prop :=
  m.step.1 = .error (.invalidCodePoint value pc)

/-- The medium has no say in it. -/
theorem Stuck.adjust {m : Machine μ} {value : Word} {pc : Nat} (h : m.Stuck value pc)
    (change : μ → μ) : Stuck { m with sink := m.sink.adjust change } value pc := by
  have hcore : m.core = core { m with sink := m.sink.adjust change } := rfl
  exact step_eq_invalid_of_core_eq hcore h

theorem Stuck.idle {m : Machine μ} {value : Word} {pc : Nat} (h : m.Stuck value pc) :
    m.Idle (.error (.invalidCodePoint value pc)) :=
  ⟨nofun, fun change => (invalid_of_step_error (h.adjust change)).2.2⟩

/-- **No later call gets past the instruction.** -/
theorem Stuck.performAll_eq {m : Machine μ} {value : Word} {pc : Nat} (h : m.Stuck value pc)
    (budget : Nat) (calls : List (Call μ)) :
    m.performAll (budget + 1) calls =
      some (calls.map (Call.answerWhenStuck (.invalidCodePoint value pc)),
        { m with sink := m.sink.adjust (Call.changes calls) }) := by
  rw [Call.answerWhenStuck_eq]
  exact h.idle.performAll_eq budget calls

/-! ## All that a failed attempt does -/

/-- An attempt on `m` failed with `e` and left `m'`. -/
structure AtomicFailure (m : Machine μ) (e : ExecutionError) (m' : Machine μ) : Prop where
  program : m'.program = m.program
  registers : m'.registers = m.registers
  pc : m'.pc = m.pc
  steps : m'.steps = m.steps
  /-- There was no character to print: the sink and its medium have not been used, and every later call
  ends in the same way. -/
  invalid : ∀ value pc, e = .invalidCodePoint value pc →
    pc = m'.pc ∧
      (∃ operand, m'.fetch? = some (.printChar operand) ∧ m'.registers.resolve operand = value) ∧
      m'.sink = m.sink ∧
      ∀ budget calls, m'.performAll (budget + 1) calls =
        some (calls.map (Call.answerWhenStuck e),
          { m' with sink := m'.sink.adjust (Call.changes calls) })
  /-- The sink failed: it has received a front part of the text of a print instruction. -/
  output : ∀ fault, e = .output fault →
    ∃ i data, m'.fetch? = some i ∧ i.Prints m'.registers data ∧
      m.sink.Interrupted data fault m'.sink

theorem atomicFailure_of_step {m : Machine μ} {e : ExecutionError} (h : m.step.1 = .error e) :
    AtomicFailure m e m.step.2 := by
  obtain ⟨hprogram, hregisters, hpc, hsteps⟩ := core_eq_iff.mp (core_step_of_error h)
  refine ⟨hprogram, hregisters, hpc, hsteps, ?_, ?_⟩
  · rintro value pc rfl
    have hstuck : m.Stuck value pc := h
    obtain ⟨rfl, ⟨i, hfetch, heffect⟩, hstep⟩ := invalid_of_step_error h
    obtain ⟨operand, rfl, hvalue, _⟩ := Instr.effect_eq_error_iff.mp heffect
    rw [hstep]
    exact ⟨rfl, ⟨operand, hfetch, hvalue⟩, rfl, hstuck.performAll_eq⟩
  · rintro fault rfl
    obtain ⟨i, effect, data, sink, hfetch, heffect, houtput, hemit, hstep⟩ := blocked_of_step_error h
    rw [hstep]
    exact ⟨i, data, hfetch, Instr.prints_of_effect heffect houtput,
      Sink.interrupted_of_emit_error hemit⟩

/-- **Failures are atomic and lose no progress.** An attempt that fails leaves the program, the
registers, the counter and the step counter as they were. A run that fails consists of `k` attempts that
execute an instruction each and a last one that fails, and the step counter has grown by `k`. -/
theorem failures_are_atomic (m : Machine μ) :
    (∀ e, m.step.1 = .error e → AtomicFailure m e m.step.2) ∧
      ∀ budget r e, m.run budget = some r → r.result = .error e →
        ∃ k, (∀ j < k, (m.after j).step.1 = .ok .running) ∧ m.executions k = k ∧
          (m.after k).step.1 = .error e ∧ r.machine = (m.after k).step.2 ∧
          r.machine.steps = m.steps + .ofNat k ∧ AtomicFailure (m.after k) e r.machine := by
  refine ⟨fun e => atomicFailure_of_step, ?_⟩
  intro budget r e hrun herror
  obtain ⟨k, _, hends, hresult, hmachine⟩ := exists_endsAt_of_run hrun
  have hlast : (m.after k).step.1 = .error e := by
    rw [hresult] at herror
    cases hstep : (m.after k).step.1 with
    | ok status => rw [hstep] at herror; cases herror
    | error e' => rw [hstep] at herror; cases herror; rfl
  have hfailure := atomicFailure_of_step hlast
  have hcount := executions_of_running hends.running
  refine ⟨k, hends.running, hcount, hlast, hmachine, ?_, hmachine ▸ hfailure⟩
  rw [hmachine]
  show (m.after k).step.2.steps = _
  rw [hfailure.steps, steps_after, hcount]

/-- A run prints a number and then comes to a value that is no code point. Neither another run nor a step
on a sink without room gets any further. -/
theorem failures_are_atomic_stuck :
    let p : Program := #[.printNumber (.literal 7), .dec (.literal 0) (.literal 1),
      .printChar (.register 0)]
    let calls : List (Call Bounded) := [.run, .adjust fun b => { b with limit := some 0 }, .step]
    let e : ExecutionError := .invalidCodePoint (-1) 2
    ∃ r, (Machine.start p ({} : Bounded)).run 9 = some r ∧ r.result = .error e ∧
      r.machine.pc = 2 ∧ r.machine.steps = 2 ∧
      r.machine.performAll 1 calls = some ([.failed e, .silent, .failed e],
        { r.machine with sink := r.machine.sink.adjust fun b => { b with limit := some 0 } }) := by
  intro p calls e
  obtain ⟨r, hr⟩ : ∃ r, (Machine.start p ({} : Bounded)).run 9 = some r :=
    Option.isSome_iff_exists.mp (by decide +kernel)
  have hseen : ((Machine.start p ({} : Bounded)).run 9).map
      (fun r => (Answer.ofRun r.result, r.machine.steps)) = some (.failed e, 2) := by decide +kernel
  rw [hr, Option.map_some, Option.some.injEq, Prod.mk.injEq] at hseen
  obtain ⟨hfailed, hsteps⟩ := hseen
  have herror := Answer.ofRun_eq_failed_iff.mp hfailed
  obtain ⟨k, _, _, _, _, _, hfailure⟩ :=
    (failures_are_atomic (Machine.start p ({} : Bounded))).2 9 r e hr herror
  obtain ⟨hpc, _, _, hcalls⟩ := hfailure.invalid _ _ rfl
  exact ⟨r, hr, herror, hpc.symm, hsteps, hcalls 0 calls⟩

end Machine

end RegisterMachine
