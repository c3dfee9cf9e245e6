import RegisterMachine.Machine
import RegisterMachine.Proofs.Emission

/-!
# Attempts

A machine is used by attempting its next instruction again and again. This module says what a single
attempt can do, and names the machine, the answers and the work done after a number of them.

* **`core`** — the machine apart from its sink.
* **`step_of_fetch?_none`**, **`step_of_effect_error`**, **`step_of_send_error`**,
  **`step_of_send_ok`** — the four ways an attempt goes. `Machine.step` is not unfolded elsewhere.
* **`step_of_effect_ok`** — on a medium that never fails, an instruction with an effect has it.
* **`after`**, **`trail`**, **`answers`**, **`executions`** — `n` attempts in a row, whatever they answer.
* **`attempt`** — the ways an attempt goes, for any medium: a case split for all that is said about
  attempts later. **`core_step_of_not_executes`**, **`steps_after`** are the first to use it.
* **`pc_step_of_executes`**, **`pc_step_of_not_executes`** — where the counter is afterwards.
* **`invalid_of_step_error`**, **`blocked_of_step_error`** — which of the ways a failed attempt went.
* **`SinkFails`** — the next attempt fails, and the sink is why.
* **`program_after`**, **`after_of_isHalted`** — what no attempt changes.
-/

namespace RegisterMachine.Machine

open Medium

variable {μ : Type}

/-! ## The machine apart from its sink -/

/-- What a program computes on: all of the machine but its sink. -/
def core (m : Machine μ) : Machine Unit :=
  { program := m.program, registers := m.registers, pc := m.pc, steps := m.steps,
    sink := { medium := () } }

theorem core_eq_iff {ν : Type} {m : Machine μ} {m' : Machine ν} :
    m.core = m'.core ↔ m.program = m'.program ∧ m.registers = m'.registers ∧ m.pc = m'.pc ∧
      m.steps = m'.steps := by
  simp [core]

/-! ## A single attempt -/

theorem fetch?_eq_none_iff {m : Machine μ} : m.fetch? = none ↔ m.isHalted = true := by
  simp [fetch?, isHalted]

theorem exists_fetch?_of_running {m : Machine μ} (h : m.isHalted = false) :
    ∃ i, m.fetch? = some i := by
  rw [← Option.ne_none_iff_exists', Ne, fetch?_eq_none_iff, h]
  exact Bool.false_ne_true

theorem isHalted_of_fetch? {m : Machine μ} {i : Instr} (h : m.fetch? = some i) :
    m.isHalted = false := by
  rw [← Bool.not_eq_true, ← fetch?_eq_none_iff, h]
  exact Option.some_ne_none i

variable [Medium μ]

theorem step_of_fetch?_none {m : Machine μ} (h : m.fetch? = none) : m.step = (.ok .halted, m) := by
  rw [step, h]

theorem step_of_isHalted {m : Machine μ} (h : m.isHalted = true) : m.step = (.ok .halted, m) :=
  step_of_fetch?_none (fetch?_eq_none_iff.mpr h)

theorem step_of_effect_error {m : Machine μ} {i : Instr} {value : Word} (hfetch : m.fetch? = some i)
    (heffect : i.effect m.registers = .error value) :
    m.step = (.error (.invalidCodePoint value m.pc), m) := by
  rw [step, hfetch]
  show m.execute i = _
  rw [execute, heffect]

theorem step_of_send_error {m m' : Machine μ} {i : Instr} {effect : Effect} {e : ExecutionError}
    (hfetch : m.fetch? = some i) (heffect : i.effect m.registers = .ok effect)
    (hsend : m.send effect.output = (.error e, m')) : m.step = (.error e, m') := by
  rw [step, hfetch]
  show m.execute i = _
  simp only [execute, heffect, hsend]

theorem step_of_send_ok {m m' : Machine μ} {i : Instr} {effect : Effect}
    (hfetch : m.fetch? = some i) (heffect : i.effect m.registers = .ok effect)
    (hsend : m.send effect.output = (.ok (), m')) :
    m.step = (.ok (m'.commit effect).status, m'.commit effect) := by
  rw [step, hfetch]
  show m.execute i = _
  simp only [execute, heffect, hsend]

/-- An instruction that prints nothing does not depend on the sink. -/
theorem step_of_output_none {m : Machine μ} {i : Instr} {effect : Effect} (hfetch : m.fetch? = some i)
    (heffect : i.effect m.registers = .ok effect) (houtput : effect.output = none) :
    m.step = (.ok (m.commit effect).status, m.commit effect) := by
  have hsend : m.send effect.output = (.ok (), m) := by
    rw [houtput]
    rfl
  exact step_of_send_ok hfetch heffect hsend

/-! ## Attempts on a medium that never fails -/

/-- Output goes through, and nothing but the sink has changed. -/
theorem send_of_neverFails {m : Machine μ} (h : NeverFails m.sink.medium)
    (output : Option (List UInt8)) :
    ∃ sink : Sink μ, NeverFails sink.medium ∧ sink.stored = m.sink.stored ++ output.getD [] ∧
      m.send output = (.ok (), { m with sink }) := by
  cases output with
  | none =>
    refine ⟨m.sink, h, ?_, rfl⟩
    rw [Option.getD_none, Array.appendList_nil]
  | some data =>
    obtain ⟨medium, hmedium, hemit⟩ := Sink.emit_of_neverFails h data
    refine ⟨_, hmedium, ?_, by rw [send, hemit]⟩
    rfl

theorem step_of_effect_ok {m : Machine μ} {i : Instr} {effect : Effect} (h : NeverFails m.sink.medium)
    (hfetch : m.fetch? = some i) (heffect : i.effect m.registers = .ok effect) :
    ∃ sink : Sink μ, NeverFails sink.medium ∧
      sink.stored = m.sink.stored ++ effect.output.getD [] ∧
      m.step = (.ok (commit { m with sink } effect).status, commit { m with sink } effect) := by
  obtain ⟨sink, hsink, hstored, hsend⟩ := send_of_neverFails h effect.output
  exact ⟨sink, hsink, hstored, step_of_send_ok hfetch heffect hsend⟩

/-! ## Attempts in a row -/

/-- The machine after `n` attempts. -/
def after (m : Machine μ) : (n : Nat) → Machine μ
  | 0 => m
  | n + 1 => (m.after n).step.2

/-- The machines that the first `n` attempts are made on, in order. -/
def trail (m : Machine μ) (n : Nat) : List (Machine μ) :=
  (List.range n).map m.after

/-- What the first `n` attempts answer, in order. -/
def answers (m : Machine μ) (n : Nat) : List (Except ExecutionError Status) :=
  (List.range n).map fun k => (m.after k).step.1

/-- The next attempt executes an instruction: there is one, and it does not fail. -/
def executes (m : Machine μ) : Bool :=
  !m.isHalted && m.step.1.isOk

/-- The number of instructions that the first `n` attempts execute. -/
def executions (m : Machine μ) (n : Nat) : Nat :=
  (List.range n).countP fun k => (m.after k).executes

theorem answers_succ (m : Machine μ) (n : Nat) :
    m.answers (n + 1) = m.answers n ++ [(m.after n).step.1] := by
  rw [answers, List.range_succ, List.map_append]
  rfl

theorem executions_succ (m : Machine μ) (n : Nat) :
    m.executions (n + 1) = m.executions n + if (m.after n).executes then 1 else 0 := by
  rw [executions, List.range_succ, List.countP_append, List.countP_singleton]
  rfl

theorem executions_le (m : Machine μ) (n : Nat) : m.executions n ≤ n := by
  have h := List.countP_le_length (l := List.range n) (p := fun k => (m.after k).executes)
  rwa [List.length_range] at h

theorem executions_eq_iff {m : Machine μ} {n : Nat} :
    m.executions n = n ↔ ∀ j < n, (m.after j).executes = true := by
  have h := List.countP_eq_length (p := fun k => (m.after k).executes) (l := List.range n)
  rw [List.length_range] at h
  rw [executions, h]
  exact forall_congr' fun j => imp_congr_left List.mem_range

theorem after_step (m : Machine μ) (n : Nat) : m.step.2.after n = m.after (n + 1) := by
  induction n with
  | zero => rfl
  | succ n ih => rw [after, ih]; rfl

theorem trail_succ (m : Machine μ) (n : Nat) : m.trail (n + 1) = m.trail n ++ [m.after n] := by
  rw [trail, List.range_succ, List.map_append]
  rfl

theorem trail_succ_eq_cons (m : Machine μ) (n : Nat) : m.trail (n + 1) = m :: m.step.2.trail n := by
  rw [trail, List.range_succ_eq_map, List.map_cons, List.map_map]
  congr 1
  apply List.map_congr_left
  intro k _
  exact (after_step m k).symm

theorem after_add (m : Machine μ) (j n : Nat) : (m.after j).after n = m.after (j + n) := by
  induction n with
  | zero => rfl
  | succ n ih => rw [after, ih, ← Nat.add_assoc, after]

theorem executions_add (m : Machine μ) (j n : Nat) :
    m.executions (j + n) = m.executions j + (m.after j).executions n := by
  induction n with
  | zero => rfl
  | succ n ih => rw [← Nat.add_assoc, executions_succ, ih, executions_succ, after_add, Nat.add_assoc]

/-! ## The ways an attempt goes -/

/-- **The ways an attempt goes.** There is no instruction, or there is no character to print, or the
sink fails, or the instruction is executed. Only the last changes more than the sink. -/
inductive Attempt (m : Machine μ) : Prop where
  | halted (hfetch : m.fetch? = none) (hexecutes : m.executes = false)
      (hstep : m.step = (.ok .halted, m))
  | invalid {i : Instr} {value : Word} (hfetch : m.fetch? = some i)
      (heffect : i.effect m.registers = .error value) (hexecutes : m.executes = false)
      (hstep : m.step = (.error (.invalidCodePoint value m.pc), m))
  | blocked {i : Instr} {effect : Effect} {data : List UInt8} {fault : Fault} {sink : Sink μ}
      (hfetch : m.fetch? = some i) (heffect : i.effect m.registers = .ok effect)
      (houtput : effect.output = some data) (hemit : m.sink.emit data = (.error fault, sink))
      (hexecutes : m.executes = false) (hstep : m.step = (.error (.output fault), { m with sink }))
  | executed {i : Instr} {effect : Effect} {sink : Sink μ} (hfetch : m.fetch? = some i)
      (heffect : i.effect m.registers = .ok effect)
      (hsend : m.send effect.output = (.ok (), { m with sink })) (hexecutes : m.executes = true)
      (hstep : m.step = (.ok (commit { m with sink } effect).status, commit { m with sink } effect))

theorem executes_of_step_error {m : Machine μ} {e : ExecutionError} (h : m.step.1 = .error e) :
    m.executes = false := by
  rw [executes, h]
  exact Bool.and_false _

theorem isHalted_of_executes {m : Machine μ} (h : m.executes = true) : m.isHalted = false := by
  rw [executes, Bool.and_eq_true, Bool.not_eq_true'] at h
  exact h.1

theorem executes_of_step_ok {m : Machine μ} {s : Status} (hrunning : m.isHalted = false)
    (hstep : m.step.1 = .ok s) : m.executes = true := by
  rw [executes, hrunning, hstep]
  rfl

theorem isHalted_of_step_error {m : Machine μ} {e : ExecutionError} (h : m.step.1 = .error e) :
    m.isHalted = false := by
  rw [← Bool.not_eq_true, ← fetch?_eq_none_iff]
  intro hfetch
  rw [step_of_fetch?_none hfetch] at h
  cases h

theorem attempt (m : Machine μ) : Attempt m := by
  cases hfetch : m.fetch? with
  | none =>
    have hexecutes : m.executes = false := by
      rw [executes, fetch?_eq_none_iff.mp hfetch]
      rfl
    exact .halted hfetch hexecutes (step_of_fetch?_none hfetch)
  | some i =>
    cases heffect : i.effect m.registers with
    | error value =>
      have hstep := step_of_effect_error hfetch heffect
      exact .invalid hfetch heffect (executes_of_step_error (congrArg Prod.fst hstep)) hstep
    | ok effect =>
      have hexecuted (sink : Sink μ) (hsend : m.send effect.output = (.ok (), { m with sink })) :
          Attempt m := by
        have hstep := step_of_send_ok hfetch heffect hsend
        have hexecutes := executes_of_step_ok (isHalted_of_fetch? hfetch) (congrArg Prod.fst hstep)
        exact .executed hfetch heffect hsend hexecutes hstep
      cases houtput : effect.output with
      | none => exact hexecuted m.sink (by rw [houtput]; rfl)
      | some data =>
        obtain ⟨result, sink, hemit⟩ : ∃ result sink, m.sink.emit data = (result, sink) :=
          ⟨_, _, rfl⟩
        cases result with
        | ok _ => exact hexecuted sink (by rw [houtput, send, hemit])
        | error fault =>
          have hstep : m.step = (.error (.output fault), { m with sink }) :=
            step_of_send_error hfetch heffect (by rw [houtput, send, hemit])
          exact .blocked hfetch heffect houtput hemit
            (executes_of_step_error (congrArg Prod.fst hstep)) hstep

theorem invalid_of_step_error {m : Machine μ} {value : Word} {pc : Nat}
    (h : m.step.1 = .error (.invalidCodePoint value pc)) :
    m.pc = pc ∧ (∃ i, m.fetch? = some i ∧ i.effect m.registers = .error value) ∧
      m.step = (.error (.invalidCodePoint value pc), m) := by
  cases m.attempt with
  | halted _ _ hstep => rw [hstep] at h; cases h
  | blocked _ _ _ _ _ hstep => rw [hstep] at h; cases h
  | executed _ _ _ _ hstep => rw [hstep] at h; cases h
  | invalid hfetch heffect _ hstep =>
    rw [hstep] at h
    cases h
    exact ⟨rfl, ⟨_, hfetch, heffect⟩, hstep⟩

theorem blocked_of_step_error {m : Machine μ} {fault : Fault}
    (h : m.step.1 = .error (.output fault)) :
    ∃ i effect data sink, m.fetch? = some i ∧ i.effect m.registers = .ok effect ∧
      effect.output = some data ∧ m.sink.emit data = (.error fault, sink) ∧
      m.step = (.error (.output fault), { m with sink }) := by
  cases m.attempt with
  | halted _ _ hstep => rw [hstep] at h; cases h
  | invalid _ _ _ hstep => rw [hstep] at h; cases h
  | executed _ _ _ _ hstep => rw [hstep] at h; cases h
  | blocked hfetch heffect houtput hemit _ hstep =>
    rw [hstep] at h
    cases h
    exact ⟨_, _, _, _, hfetch, heffect, houtput, hemit, hstep⟩

/-- An attempt that executes nothing changes nothing but the sink. -/
theorem core_step_of_not_executes {m : Machine μ} (h : m.executes = false) :
    m.step.2.core = m.core := by
  cases m.attempt with
  | halted _ _ hstep => rw [hstep]
  | invalid _ _ _ hstep => rw [hstep]
  | blocked _ _ _ _ _ hstep => rw [hstep]; rfl
  | executed _ _ _ hexecutes _ =>
    rw [h] at hexecutes
    cases hexecutes

theorem core_step_of_error {m : Machine μ} {e : ExecutionError} (h : m.step.1 = .error e) :
    m.step.2.core = m.core :=
  core_step_of_not_executes (executes_of_step_error h)

/-- An executed instruction leads to where its effect says. -/
theorem pc_step_of_executes {m : Machine μ} (h : m.executes = true) :
    ∃ i effect, m.fetch? = some i ∧ i.effect m.registers = .ok effect ∧
      m.step.2.pc = m.follow effect.transfer := by
  cases m.attempt with
  | halted _ hexecutes _ => rw [h] at hexecutes; cases hexecutes
  | invalid _ _ hexecutes _ => rw [h] at hexecutes; cases hexecutes
  | blocked _ _ _ _ hexecutes _ => rw [h] at hexecutes; cases hexecutes
  | executed hfetch heffect _ _ hstep => exact ⟨_, _, hfetch, heffect, by rw [hstep]; rfl⟩

theorem pc_step_of_not_executes {m : Machine μ} (h : m.executes = false) : m.step.2.pc = m.pc :=
  (core_eq_iff.mp (core_step_of_not_executes h)).2.2.1

/-- The next attempt fails because of the sink. -/
def SinkFails (m : Machine μ) : Prop :=
  ∃ fault, m.step.1 = .error (.output fault)

theorem not_sinkFails_of_executes {m : Machine μ} (h : m.executes = true) : ¬ m.SinkFails := by
  rintro ⟨fault, hstep⟩
  rw [executes_of_step_error hstep] at h
  cases h

theorem not_sinkFails_of_neverFails {m : Machine μ} (h : NeverFails m.sink.medium) :
    ¬ m.SinkFails := by
  rintro ⟨fault, hfault⟩
  obtain ⟨_, _, data, _, _, _, _, hemit, _⟩ := blocked_of_step_error hfault
  obtain ⟨_, _, hok⟩ := Sink.emit_of_neverFails h data
  rw [hok] at hemit
  cases hemit

theorem steps_step (m : Machine μ) :
    m.step.2.steps = m.steps + UInt64.ofNat (if m.executes then 1 else 0) := by
  cases m.attempt with
  | halted _ hexecutes hstep => rw [hexecutes, hstep]; exact (UInt64.add_zero _).symm
  | invalid _ _ hexecutes hstep => rw [hexecutes, hstep]; exact (UInt64.add_zero _).symm
  | blocked _ _ _ _ hexecutes hstep => rw [hexecutes, hstep]; exact (UInt64.add_zero _).symm
  | executed _ _ _ hexecutes hstep => rw [hexecutes, hstep]; rfl

/-- The step counter counts the executed instructions, modulo `2 ^ 64`. -/
theorem steps_after (m : Machine μ) (n : Nat) :
    (m.after n).steps = m.steps + UInt64.ofNat (m.executions n) := by
  induction n with
  | zero => exact (UInt64.add_zero _).symm
  | succ n ih => rw [after, steps_step, ih, executions_succ, UInt64.ofNat_add, UInt64.add_assoc]

theorem program_step (m : Machine μ) : m.step.2.program = m.program := by
  cases m.attempt with
  | halted _ _ hstep => rw [hstep]
  | invalid _ _ _ hstep => rw [hstep]
  | blocked _ _ _ _ _ hstep => rw [hstep]
  | executed _ _ _ _ hstep => rw [hstep]; rfl

theorem program_after (m : Machine μ) (n : Nat) : (m.after n).program = m.program := by
  induction n with
  | zero => rfl
  | succ n ih => rw [after, program_step, ih]

theorem after_of_isHalted {m : Machine μ} (h : m.isHalted = true) (n : Nat) : m.after n = m := by
  induction n with
  | zero => rfl
  | succ n ih => rw [after, ih, step_of_isHalted h]

/-- A machine that is running was running all the time. -/
theorem isHalted_of_le {m : Machine μ} {j n : Nat} (h : (m.after n).isHalted = false) (hj : j ≤ n) :
    (m.after j).isHalted = false := by
  rw [← Bool.not_eq_true]
  intro hhalted
  obtain ⟨k, rfl⟩ := Nat.exists_eq_add_of_le hj
  rw [← after_add, after_of_isHalted hhalted, hhalted] at h
  cases h

theorem executions_of_isHalted {m : Machine μ} (h : m.isHalted = true) (n : Nat) :
    m.executions n = 0 := by
  have hexecutes : m.executes = false := by
    rw [executes, h]
    rfl
  induction n with
  | zero => rfl
  | succ n ih => rw [executions_succ, ih, after_of_isHalted h, hexecutes]; rfl

/-! ## What was printed and flushed -/

theorem neverFails_step {m : Machine μ} (h : NeverFails m.sink.medium) :
    NeverFails m.step.2.sink.medium := by
  cases m.attempt with
  | halted _ _ hstep => rwa [hstep]
  | invalid _ _ _ hstep => rwa [hstep]
  | blocked _ _ _ _ _ hstep =>
    exact absurd ⟨_, congrArg Prod.fst hstep⟩ (not_sinkFails_of_neverFails h)
  | executed hfetch heffect _ _ _ =>
    obtain ⟨_, hsink, _, hstep⟩ := step_of_effect_ok h hfetch heffect
    rwa [hstep]

theorem sink_of_send_none {m : Machine μ} {sink : Sink μ}
    (h : m.send none = (.ok (), { m with sink })) : sink = m.sink :=
  congrArg (·.2.sink) h.symm

theorem emit_of_send_some {m : Machine μ} {data : List UInt8} {sink : Sink μ}
    (h : m.send (some data) = (.ok (), { m with sink })) : m.sink.emit data = (.ok (), sink) := by
  obtain ⟨answer, s, hemit⟩ : ∃ answer s, m.sink.emit data = (answer, s) := ⟨_, _, rfl⟩
  simp only [send, hemit] at h
  cases answer with
  | error fault => cases h
  | ok _ =>
    have hsink : s = sink := congrArg (·.2.sink) h
    rw [hemit, hsink]

/-- Output that goes through is stored. -/
theorem stored_of_send {m : Machine μ} {output : Option (List UInt8)} {sink : Sink μ}
    (h : m.send output = (.ok (), { m with sink })) :
    sink.stored = m.sink.stored ++ output.getD [] := by
  cases output with
  | none => rw [sink_of_send_none h, Option.getD_none, Array.appendList_nil]
  | some data => exact (Sink.completed_of_emit_ok (emit_of_send_some h)).stored

/-- Output that goes through is flushed. -/
theorem flushed_of_send {m : Machine μ} {output : Option (List UInt8)} {sink : Sink μ}
    (h : m.send output = (.ok (), { m with sink }))
    (hflushed : output = none → m.sink.flushed = m.sink.stored.size) :
    sink.flushed = sink.stored.size := by
  cases output with
  | none => rw [sink_of_send_none h, hflushed rfl]
  | some data => exact (Sink.completed_of_emit_ok (emit_of_send_some h)).flushed

/-- Only instructions that print add to the sink. -/
theorem exists_print_of_stored_ne {m : Machine μ} (h : m.step.2.sink.stored ≠ m.sink.stored) :
    ∃ i effect data, m.fetch? = some i ∧ i.effect m.registers = .ok effect ∧
      effect.output = some data := by
  cases m.attempt with
  | halted _ _ hstep => rw [hstep] at h; exact absurd rfl h
  | invalid _ _ _ hstep => rw [hstep] at h; exact absurd rfl h
  | blocked hfetch heffect houtput _ _ _ => exact ⟨_, _, _, hfetch, heffect, houtput⟩
  | @executed i effect sink hfetch heffect hsend _ hstep =>
    cases houtput : effect.output with
    | some data => exact ⟨i, effect, data, hfetch, heffect, houtput⟩
    | none =>
      rw [houtput] at hsend
      rw [hstep] at h
      exact absurd (congrArg Sink.stored (sink_of_send_none hsend)) h

/-- An attempt that prints leaves everything flushed, and one that does not print has to find it so. -/
theorem flushed_step {m : Machine μ} (h : ¬ m.SinkFails)
    (hflushed : m.step.2.sink.stored = m.sink.stored → m.sink.flushed = m.sink.stored.size) :
    m.step.2.sink.flushed = m.step.2.sink.stored.size := by
  cases m.attempt with
  | halted _ _ hstep => rw [hstep] at hflushed ⊢; exact hflushed rfl
  | invalid _ _ _ hstep => rw [hstep] at hflushed ⊢; exact hflushed rfl
  | blocked _ _ _ _ _ hstep => exact absurd ⟨_, congrArg Prod.fst hstep⟩ h
  | executed _ _ hsend _ hstep =>
    rw [hstep] at hflushed ⊢
    refine flushed_of_send hsend fun hnone => hflushed ?_
    rw [hnone] at hsend
    exact congrArg Sink.stored (sink_of_send_none hsend)

/-- An attempt that adds to the sink and does not fail executes an instruction. -/
theorem executes_of_stored_ne {m : Machine μ} (h : ¬ m.SinkFails)
    (hprints : m.step.2.sink.stored ≠ m.sink.stored) : m.executes = true := by
  cases m.attempt with
  | halted _ _ hstep => rw [hstep] at hprints; exact absurd rfl hprints
  | invalid _ _ _ hstep => rw [hstep] at hprints; exact absurd rfl hprints
  | blocked _ _ _ _ _ hstep => exact absurd ⟨_, congrArg Prod.fst hstep⟩ h
  | executed _ _ _ hexecutes _ => exact hexecutes

/-! ## A row of attempts on a medium that never fails -/

theorem neverFails_after {m : Machine μ} (h : NeverFails m.sink.medium) (n : Nat) :
    NeverFails (m.after n).sink.medium := by
  induction n with
  | zero => exact h
  | succ n ih => exact neverFails_step ih

theorem flushed_after {m : Machine μ} (h : NeverFails m.sink.medium)
    (hflushed : m.sink.flushed = m.sink.stored.size) (n : Nat) :
    (m.after n).sink.flushed = (m.after n).sink.stored.size := by
  induction n with
  | zero => exact hflushed
  | succ n ih => exact flushed_step (not_sinkFails_of_neverFails (neverFails_after h n)) fun _ => ih

end RegisterMachine.Machine
