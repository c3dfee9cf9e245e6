import Mathlib.Data.List.Basic
import RegisterMachine.Proofs.Machine.Sessions

/-!
# Events of runs

A run reports each instruction when it attempts it, and at its end that the machine has halted, unless an
instruction failed.

* **`events_of_run`** — the reported events are those of the machines that the attempts are made on.
* **`Traces`** — a list of events tells the attempts on a machine: where the counter is, what stands there,
  and how each place follows from the one before.
* **`Run.Reported`**, **`reported_of_run`** — what the events of a run tell.
-/

namespace RegisterMachine

/-- The event of a run that did not fail. -/
def Run.halting? {μ : Type} (r : Run μ) : Option Event :=
  r.result.toOption.map fun _ => .halted r.machine.steps r.machine.pc

namespace Machine

variable {μ : Type} [Medium μ]

/-! ## Reported events -/

theorem reports_of_running {m : Machine μ} (h : m.step.1 = .ok .running) :
    m.reports = m.attempt?.toList := by
  have hstep : m.step = (.ok .running, m.step.2) := Prod.ext h rfl
  rw [reports, hstep, List.append_nil]

theorem reports_of_ended {m : Machine μ} (h : m.step.1 ≠ .ok .running) :
    m.reports = m.attempt?.toList ++
      (m.step.1.toOption.map fun _ => Event.halted m.step.2.steps m.step.2.pc).toList := by
  obtain ⟨answer, m', hstep⟩ : ∃ answer m', m.step = (answer, m') := ⟨_, _, rfl⟩
  rw [hstep] at h
  rw [reports, hstep]
  cases answer with
  | error e => rfl
  | ok status =>
    cases status with
    | running => exact absurd rfl h
    | halted => rfl

/-- Only the last of the rounds of a run can report more than its attempt. -/
theorem flatMap_reports_trail {m : Machine μ} {k : Nat} (h : m.EndsAt k) :
    (m.trail (k + 1)).flatMap reports = (m.trail (k + 1)).filterMap attempt? ++
      ((m.after k).step.1.toOption.map fun _ =>
        Event.halted (m.after (k + 1)).steps (m.after (k + 1)).pc).toList := by
  have hearlier : (m.trail k).flatMap reports = (m.trail k).filterMap attempt? := by
    rw [List.filterMap_eq_flatMap_toList]
    refine List.flatMap_congr fun n hn => ?_
    obtain ⟨j, hj, rfl⟩ := List.mem_map.mp hn
    exact reports_of_running (h.running j (List.mem_range.mp hj))
  rw [trail_succ, List.flatMap_append, hearlier, List.flatMap_singleton, reports_of_ended h.ended,
    List.filterMap_append, List.append_assoc]
  cases hevent : (m.after k).attempt? <;> simp [hevent, after]

/-- **The events of a run.** Each attempt on a machine that is not halted is reported, in order, and then the
end of the run, if it did not fail. -/
theorem events_of_run {budget k : Nat} {m : Machine μ} {r : Run μ} (h : m.EndsAt k)
    (hrun : m.run budget = some r) :
    r.events.toList = (m.trail (k + 1)).filterMap attempt? ++ r.halting?.toList := by
  obtain ⟨j, hj, hends⟩ := exists_endsAt_of_runFrom hrun
  obtain rfl := hends.unique h
  rw [run, runInto, runFrom_of_endsAt hends hj, Option.some.injEq] at hrun
  subst hrun
  rw [flatMap_reports_trail hends, Run.halting?]
  cases (m.after j).step.1 <;> simp [Except.map, Except.toOption]

/-! ## What the events tell -/

/-- The events tell the attempts on a machine. -/
structure Traces (m : Machine μ) (attempts : List Event) : Prop where
  /-- Each event tells the counter before the attempt, and the instruction at that place. -/
  attempt : ∀ k e, attempts[k]? = some e →
    ∃ i, m.program[(m.after k).pc]? = some i ∧ e = .attempt (m.after k).pc i
  /-- Each place but the first is where the instruction before has led. -/
  move : ∀ k pc i pc' i', attempts[k]? = some (.attempt pc i) →
    attempts[k + 1]? = some (.attempt pc' i') →
    ∃ effect, i.effect (m.after k).registers = .ok effect ∧ pc' = (m.after k).follow effect.transfer

omit [Medium μ] in
theorem exists_attempt_of_running {m : Machine μ} (h : m.isHalted = false) :
    ∃ i, m.fetch? = some i ∧ m.attempt? = some (.attempt m.pc i) := by
  obtain ⟨i, hfetch⟩ := exists_fetch?_of_running h
  exact ⟨i, hfetch, by rw [attempt?, hfetch, Option.map_some]⟩

/-- Attempts on machines that are not halted are all reported. -/
theorem map_some_attempts {m : Machine μ} {n : Nat} (h : ∀ k < n, (m.after k).isHalted = false) :
    ((m.trail n).filterMap attempt?).map some = (m.trail n).map attempt? := by
  induction n with
  | zero => rfl
  | succ n ih =>
    obtain ⟨i, _, hevent⟩ := exists_attempt_of_running (h n (Nat.lt_succ_self n))
    rw [trail_succ, List.filterMap_append, List.map_append, List.map_append, ih fun k hk => h k (by omega)]
    simp [hevent]

theorem length_attempts {m : Machine μ} {n : Nat} (h : ∀ k < n, (m.after k).isHalted = false) :
    ((m.trail n).filterMap attempt?).length = n := by
  have hlengths := congrArg List.length (map_some_attempts h)
  rw [List.length_map, List.length_map] at hlengths
  rw [hlengths, trail, List.length_map, List.length_range]

theorem getElem?_attempts {m : Machine μ} {n k : Nat} {e : Event}
    (h : ∀ k < n, (m.after k).isHalted = false)
    (he : ((m.trail n).filterMap attempt?)[k]? = some e) : k < n ∧ (m.after k).attempt? = some e := by
  have hk : k < n := by
    rw [← length_attempts h]
    exact (List.getElem?_eq_some_iff.mp he).1
  have hentry := congrArg (·[k]?) (map_some_attempts h)
  simp only [trail, List.getElem?_map, List.getElem?_range hk, Option.map_some] at hentry
  rw [trail] at he
  rw [he, Option.map_some, Option.some.injEq] at hentry
  exact ⟨hk, hentry.symm⟩

/-- **The events tell the attempts**, if each of them but the last left the machine running. -/
theorem traces_of_endsAt {m : Machine μ} {n : Nat} (h : ∀ k < n, (m.after k).isHalted = false)
    (hrunning : ∀ k, k + 1 < n → (m.after k).step.1 = .ok .running) :
    m.Traces ((m.trail n).filterMap attempt?) := by
  have hentry (k : Nat) (e : Event) (he : ((m.trail n).filterMap attempt?)[k]? = some e) :
      k < n ∧ ∃ i, (m.after k).fetch? = some i ∧ e = .attempt (m.after k).pc i := by
    obtain ⟨hk, hevent⟩ := getElem?_attempts h he
    obtain ⟨i, hfetch, heq⟩ := exists_attempt_of_running (h k hk)
    rw [hevent, Option.some.injEq] at heq
    exact ⟨hk, i, hfetch, heq⟩
  constructor
  case attempt =>
    intro k e he
    obtain ⟨_, i, hfetch, rfl⟩ := hentry k e he
    refine ⟨i, ?_, rfl⟩
    rw [← program_after m k]
    exact hfetch
  case move =>
    intro k pc i pc' i' he he'
    obtain ⟨_, j, hfetch, heq⟩ := hentry k _ he
    obtain ⟨hk, j', _, heq'⟩ := hentry (k + 1) _ he'
    cases heq
    cases heq'
    have hanswer := hrunning k hk
    show ∃ effect, _ ∧ (m.after k).step.2.pc = _
    obtain ⟨_, effect, hfetch', heffect, hpc⟩ := pc_step_of_executes (executes_of_running hanswer)
    rw [hfetch'] at hfetch
    cases hfetch
    exact ⟨effect, heffect, hpc⟩

/-- What the events of a run tell: the attempts, how many there were, and that the run did not fail. -/
structure Reported (m : Machine μ) (r : Run μ) (attempts : List Event) : Prop where
  events : r.events.toList = attempts ++ r.halting?.toList
  traces : m.Traces attempts
  /-- A run that does not fail has executed every instruction that it attempted. -/
  ok : ∀ count, r.result = .ok count → r.machine = m.after attempts.length ∧
    r.machine.isHalted = true ∧ r.machine.steps = m.steps + .ofNat attempts.length ∧
    count = .ofNat attempts.length
  /-- A run that fails has executed every instruction but the one that it attempted at last. -/
  error : ∀ e, r.result = .error e → ∃ n, attempts.length = n + 1 ∧ (m.after n).step.1 = .error e ∧
    r.machine = m.after (n + 1) ∧ r.machine.steps = m.steps + .ofNat n

theorem reported_of_run_error {budget : Nat} {m : Machine μ} {r : Run μ} {e : ExecutionError}
    (hrun : m.run budget = some r) (he : r.result = .error e) : ∃ attempts, m.Reported r attempts := by
  obtain ⟨k, _, hends, hlast, hmachine⟩ := exists_endsAt_of_run_error hrun he
  have hinside : ∀ j < k + 1, (m.after j).isHalted = false :=
    fun j hj => isHalted_of_le (isHalted_of_step_error hlast) (by omega)
  refine ⟨_, events_of_run hends hrun, traces_of_endsAt hinside fun j hj => hends.running j (by omega),
    fun count hcount => ?_, fun e' he' => ?_⟩
  · rw [he] at hcount
    cases hcount
  · rw [he] at he'
    cases he'
    refine ⟨k, length_attempts hinside, hlast, hmachine, ?_⟩
    rw [hmachine, steps_after, executions_succ, executions_of_running hends.running,
      executes_of_step_error hlast]
    rfl

/-- Only a machine that is halted from the start is halted before its last attempt. -/
theorem EndsAt.eq_zero_of_isHalted {m : Machine μ} {k : Nat} (h : m.EndsAt k)
    (hhalted : (m.after k).isHalted = true) : k = 0 := by
  cases k with
  | zero => rfl
  | succ k =>
    have hrunning : (m.after (k + 1)).isHalted = false :=
      isHalted_step_of_running (h.running k (Nat.lt_succ_self k))
    rw [hhalted] at hrunning
    cases hrunning

/-- The attempts that are reported execute an instruction each, and nothing else happens: an attempt on a
halted machine does nothing. -/
theorem exists_reported_of_halted {m : Machine μ} {k : Nat} (h : m.EndsAt k)
    (hlast : (m.after k).step.1 = .ok .halted) :
    ∃ n ≤ k + 1, (∀ j < n, (m.after j).isHalted = false) ∧
      (m.trail (k + 1)).filterMap attempt? = (m.trail n).filterMap attempt? ∧
      m.after (k + 1) = m.after n ∧ m.executions (k + 1) = n := by
  cases hhalted : (m.after k).isHalted with
  | false =>
    have hexecutes : (m.after k).executes = true := executes_of_step_ok hhalted hlast
    exact ⟨k + 1, Nat.le_refl _, fun j hj => isHalted_of_le hhalted (by omega), rfl, rfl,
      executions_of_executes h.running hexecutes⟩
  | true =>
    obtain rfl : k = 0 := h.eq_zero_of_isHalted hhalted
    have hstart : m.isHalted = true := hhalted
    have hfetch : m.fetch? = none := fetch?_eq_none_iff.mpr hstart
    refine ⟨0, Nat.zero_le _, fun j hj => absurd hj (Nat.not_lt_zero j), ?_, ?_, ?_⟩
    · simp [trail, after, attempt?, hfetch]
    · exact after_of_isHalted hstart 1
    · simp [executions, after, executes, hstart]

theorem reported_of_run_ok {budget : Nat} {m : Machine μ} {r : Run μ} {count : UInt64}
    (hrun : m.run budget = some r) (hcount : r.result = .ok count) :
    ∃ attempts, m.Reported r attempts := by
  obtain ⟨k, _, hends, hlast, hmachine, hexecutions⟩ := exists_endsAt_of_run_ok hrun hcount
  obtain ⟨n, hle, hinside, hattempts, hafter, hcounted⟩ := exists_reported_of_halted hends hlast
  have hevents := events_of_run hends hrun
  rw [hattempts] at hevents
  refine ⟨_, hevents, traces_of_endsAt hinside fun j hj => hends.running j (by omega),
    fun count' hcount' => ?_, fun e he => ?_⟩
  · rw [hcount] at hcount'
    cases hcount'
    rw [length_attempts hinside, hmachine]
    refine ⟨hafter, isHalted_step_of_halted hlast, ?_, ?_⟩
    · rw [steps_after, hcounted]
    · rw [hexecutions, hcounted]
  · rw [hcount] at he
    cases he

/-- **A run reports what it does.** -/
theorem reported_of_run {budget : Nat} {m : Machine μ} {r : Run μ} (hrun : m.run budget = some r) :
    ∃ attempts, m.Reported r attempts := by
  cases hresult : r.result with
  | error e => exact reported_of_run_error hrun hresult
  | ok count => exact reported_of_run_ok hrun hresult

end Machine

end RegisterMachine
