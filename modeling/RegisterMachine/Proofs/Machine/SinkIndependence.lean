import RegisterMachine.Proofs.Machine.Sessions
import RegisterMachine.Sink.Media

/-!
# Independence of the sink

What a program prints never comes back to it. A sink can make an attempt fail, and the instruction is
tried again, but it cannot change what the instruction does when it is executed.

* **`step_of_core_eq`** — machines that differ in their sinks only do the same, unless one of the sinks
  fails.
* **`ReachesVia.core_eq`** — so a machine is, apart from its sink, known from the number of instructions
  that were executed: it is that of as many attempts on a medium that takes everything.
* **`computation_independent_of_sink`** — two sessions of one program.
-/

namespace RegisterMachine.Machine

open Medium

variable {μ ν : Type} [Medium μ] [Medium ν]

/-! ## Machines that differ in their sinks only -/

/-- An instruction without effect is noticed before anything is sent to the sink. -/
theorem step_eq_invalid_of_core_eq {m : Machine μ} {m' : Machine ν} (hcore : m.core = m'.core)
    {value : Word} {pc : Nat} (h : m.step.1 = .error (.invalidCodePoint value pc)) :
    m'.step.1 = .error (.invalidCodePoint value pc) := by
  obtain ⟨_, hregisters, hpc, _⟩ := core_eq_iff.mp hcore
  have hfetch' : m.fetch? = m'.fetch? := congrArg fetch? hcore
  obtain ⟨rfl, ⟨i, hfetch, heffect⟩, _⟩ := invalid_of_step_error h
  rw [hfetch'] at hfetch
  rw [hregisters] at heffect
  rw [step_of_effect_error hfetch heffect, hpc]

/-- **Machines that differ in their sinks only do the same**, unless one of the sinks fails: they answer
the same and print the same, and they differ in their sinks only afterwards. -/
theorem step_of_core_eq {m : Machine μ} {m' : Machine ν} (hcore : m.core = m'.core)
    (h : ¬ m.SinkFails) (h' : ¬ m'.SinkFails) :
    m.step.1 = m'.step.1 ∧ m.step.2.core = m'.step.2.core ∧
      ∃ output : List UInt8, m.step.2.sink.stored = m.sink.stored ++ output ∧
        m'.step.2.sink.stored = m'.sink.stored ++ output := by
  obtain ⟨_, hregisters, hpc, _⟩ := core_eq_iff.mp hcore
  have hfetch' : m.fetch? = m'.fetch? := congrArg fetch? hcore
  cases m.attempt with
  | halted hfetch _ hstep =>
    rw [hstep, step_of_fetch?_none (hfetch' ▸ hfetch)]
    exact ⟨rfl, hcore, [], Array.appendList_nil.symm, Array.appendList_nil.symm⟩
  | invalid hfetch heffect _ hstep =>
    rw [hfetch'] at hfetch
    rw [hregisters] at heffect
    rw [hstep, step_of_effect_error hfetch heffect, hpc]
    exact ⟨rfl, hcore, [], Array.appendList_nil.symm, Array.appendList_nil.symm⟩
  | blocked _ _ _ _ _ hstep => exact absurd ⟨_, congrArg Prod.fst hstep⟩ h
  | @executed i effect sink hfetch heffect hsend _ hstep =>
    rw [hfetch'] at hfetch
    rw [hregisters] at heffect
    cases m'.attempt with
    | halted hnone _ _ => rw [hnone] at hfetch; cases hfetch
    | invalid hfetch₂ heffect₂ _ _ =>
      rw [hfetch] at hfetch₂
      cases hfetch₂
      rw [heffect] at heffect₂
      cases heffect₂
    | blocked _ _ _ _ _ hstep' => exact absurd ⟨_, congrArg Prod.fst hstep'⟩ h'
    | @executed _ _ sink' hfetch₂ heffect₂ hsend' _ hstep' =>
      rw [hfetch] at hfetch₂
      cases hfetch₂
      rw [heffect] at heffect₂
      cases heffect₂
      -- neither the machine after the effect nor its status depends on the sink
      have hcommit :
          (commit { m with sink } effect).core = (commit { m' with sink := sink' } effect).core :=
        congrArg (commit · effect) hcore
      rw [hstep, hstep']
      exact ⟨congrArg (Except.ok ·.status) hcommit, hcommit, effect.output.getD [],
        stored_of_send hsend, stored_of_send hsend'⟩

/-! ## Every session computes the same -/

/-- **The executed instructions determine the machine.** Whatever its sink does, the machine is, apart
from the sink, what as many attempts make of it on a medium that takes everything. -/
theorem ReachesVia.core_eq {p : Program} {medium : μ} {m : Machine μ} {past : List (Machine μ)}
    (h : ReachesVia (Machine.start p medium) past m) :
    m.core = ((Machine.start p Unlimited.mk).after (past.countP executes)).core := by
  -- an attempt that executes nothing has changed the sink only, and so has a change of the medium
  induction h with
  | refl => rfl
  | adjust _ _ ih => exact ih
  | @attempt past m _ ih =>
    rw [List.countP_append, List.countP_singleton]
    cases hexecutes : m.executes with
    | false =>
      rw [core_step_of_not_executes hexecutes, ih]
      rfl
    | true =>
      have hfree := not_sinkFails_of_neverFails
        (m := (Machine.start p Unlimited.mk).after (past.countP executes)) (neverFails_unlimited _)
      exact (step_of_core_eq ih (not_sinkFails_of_executes hexecutes) hfree).2.1

theorem ReachesVia.toNat_steps {p : Program} {medium : μ} {m : Machine μ} {past : List (Machine μ)}
    (h : ReachesVia (Machine.start p medium) past m) (hfew : past.countP executes < UInt64.size) :
    m.steps.toNat = past.countP executes := by
  have hsteps : m.steps = UInt64.ofNat (past.countP executes) := h.steps_eq.trans (UInt64.zero_add _)
  rw [hsteps, UInt64.toNat_ofNat_of_lt' hfew]

theorem core_eq_of_steps_eq {p : Program} {medium : μ} {medium' : ν} {m : Machine μ}
    {m' : Machine ν} {past : List (Machine μ)} {past' : List (Machine ν)}
    (h : ReachesVia (Machine.start p medium) past m) (h' : ReachesVia (Machine.start p medium') past' m')
    (hfew : past.countP executes < UInt64.size) (hfew' : past'.countP executes < UInt64.size)
    (hsteps : m.steps = m'.steps) : m.core = m'.core := by
  have hcount : past.countP executes = past'.countP executes := by
    rw [← h.toNat_steps hfew, ← h'.toNat_steps hfew', hsteps]
  rw [h.core_eq, h'.core_eq, hcount]

/-- **The sink cannot influence the computation.** Let one program be used in two sessions, on whatever
media and with whatever calls, and let fewer than `2 ^ 64` instructions be executed in each. If the step
counters are equal in the end, then so are the counters, the register files and the next instructions,
and the next attempt finds no character to print in both sessions or in neither. An attempt that fails
because of the sink leaves everything else as it was, and attempts that do not fail so do the same. -/
theorem computation_independent_of_sink {p : Program} {medium : μ} {medium' : ν}
    {budget budget' : Nat} {calls : List (Call μ)} {calls' : List (Call ν)}
    {answers answers' : List Answer} {m : Machine μ} {m' : Machine ν}
    (h : (Machine.start p medium).performAll budget calls = some (answers, m))
    (h' : (Machine.start p medium').performAll budget' calls' = some (answers', m'))
    (hfew : (Machine.start p medium).executedBy budget calls < UInt64.size)
    (hfew' : (Machine.start p medium').executedBy budget' calls' < UInt64.size)
    (hsteps : m.steps = m'.steps) :
    m.pc = m'.pc ∧ m.registers = m'.registers ∧ m.fetch? = m'.fetch? ∧
      (∀ value pc, m.step.1 = .error (.invalidCodePoint value pc) ↔
        m'.step.1 = .error (.invalidCodePoint value pc)) ∧
      (m.SinkFails → m.step.2.core = m.core) ∧ (m'.SinkFails → m'.step.2.core = m'.core) ∧
      (¬ m.SinkFails → ¬ m'.SinkFails →
        m.step.1 = m'.step.1 ∧ m.step.2.core = m'.step.2.core) := by
  rw [executedBy_eq_countP_history] at hfew hfew'
  have hcore : m.core = m'.core :=
    core_eq_of_steps_eq (reachesVia_performAll h) (reachesVia_performAll h') hfew hfew' hsteps
  obtain ⟨_, hregisters, hpc, _⟩ := core_eq_iff.mp hcore
  refine ⟨hpc, hregisters, congrArg fetch? hcore, fun value pc => ?_, ?_, ?_, ?_⟩
  · exact ⟨step_eq_invalid_of_core_eq hcore, step_eq_invalid_of_core_eq hcore.symm⟩
  · rintro ⟨_, hfault⟩
    exact core_step_of_error hfault
  · rintro ⟨_, hfault⟩
    exact core_step_of_error hfault
  · intro hfree hfree'
    obtain ⟨hanswer, hnext, _⟩ := step_of_core_eq hcore hfree hfree'
    exact ⟨hanswer, hnext⟩

/-- A sink with room for one byte breaks off in the middle of `-12` and is then given more room. The
value is no code point either way. -/
theorem computation_independent_of_sink_retried :
    let p : Program := #[.dec (.literal 0) (.literal 12), .printNumber (.register 0),
      .printChar (.register 0)]
    let calls : List (Call Bounded) := [.run, .adjust fun b => { b with limit := none }, .step]
    let calls' : List (Call Unlimited) := [.steps 2]
    let first := Machine.start p ({ limit := some 1 } : Bounded)
    let second := Machine.start p Unlimited.mk
    first.executedBy 9 calls < UInt64.size ∧ second.executedBy 9 calls' < UInt64.size ∧
      ∃ answers m answers' m', first.performAll 9 calls = some (answers, m) ∧
        second.performAll 9 calls' = some (answers', m') ∧ answers ≠ answers' ∧
        m.steps = 2 ∧ m'.steps = 2 ∧ m.pc = m'.pc ∧ m.registers = m'.registers ∧
        m.step.1 = .error (.invalidCodePoint (-12) 2) ∧
        m'.step.1 = .error (.invalidCodePoint (-12) 2) := by
  intro p calls calls' first second
  have hfew : first.executedBy 9 calls < UInt64.size := by decide +kernel
  have hfew' : second.executedBy 9 calls' < UInt64.size := by decide +kernel
  obtain ⟨⟨answers, m⟩, h⟩ : ∃ r, first.performAll 9 calls = some r :=
    Option.isSome_iff_exists.mp (by decide +kernel)
  obtain ⟨⟨answers', m'⟩, h'⟩ : ∃ r, second.performAll 9 calls' = some r :=
    Option.isSome_iff_exists.mp (by decide +kernel)
  have hseen : (first.performAll 9 calls).map (fun r => (r.1, r.2.steps, Answer.ofStep r.2.step.1)) =
      some ([.failed (.output "closed"), .silent, .status .running], 2,
        .failed (.invalidCodePoint (-12) 2)) := by decide +kernel
  have hseen' : (second.performAll 9 calls').map (fun r => (r.1, r.2.steps)) =
      some ([.status .running], 2) := by decide +kernel
  simp only [h, h', Option.map_some, Option.some.injEq, Prod.mk.injEq] at hseen hseen'
  obtain ⟨rfl, hsteps, hfailed⟩ := hseen
  obtain ⟨rfl, hsteps'⟩ := hseen'
  obtain ⟨hpc, hregisters, _, hinvalid, _⟩ :=
    computation_independent_of_sink h h' hfew hfew' (hsteps.trans hsteps'.symm)
  have hfault := Answer.ofStep_eq_failed_iff.mp hfailed
  exact ⟨hfew, hfew', _, m, _, m', h, h', by decide, hsteps, hsteps', hpc, hregisters, hfault,
    (hinvalid _ _).mp hfault⟩

end RegisterMachine.Machine
