import RegisterMachine.Machine.Run
import RegisterMachine.Proofs.Machine.Attempts

/-!
# Runs

A run goes on as long as attempts answer that the machine is running. So it is known from the attempts
alone: it ends with the first that answers otherwise, and its budget only has to be large enough.

* **`EndsAt`** — which attempt is the first that does not answer that the machine is running.
* **`runInto_eq_map_run`** — it does not matter how what a run reports is recorded.
* **`exists_endsAt_of_run`**, **`run_of_endsAt`**, **`run_eq_none_of_endsAt`** — what a run answers, and
  for which budgets it answers at all.
* **`exists_endsAt_of_run_error`**, **`exists_endsAt_of_run_ok`** — the last attempt of a run, depending on
  how it ended.
* **`RunsTo`**, **`runsTo_of_endsAt`** — a run ends, whatever budget that takes.
* **`forall_run_eq_none_iff`** — which runs never end.
* **`status_of_step_ok`** — an attempt answers whether there is a next one to make.
* **`executions_of_running`**, **`exists_count_of_run`** — all attempts before the last execute an
  instruction, and a run that does not fail answers how many there were.
* **`after_of_ended`**, **`running_of_printing`** — attempts after the last change nothing, unless
  the sink had failed.
-/

namespace RegisterMachine.Machine

variable {μ : Type} [Medium μ]

theorem toOption_eq_some_iff {ε α : Type} {answer : Except ε α} {a : α} :
    answer.toOption = some a ↔ answer = .ok a := by
  cases answer with
  | error e => simp [Except.toOption]
  | ok b => simp [Except.toOption]

/-! ## Where the attempts stop -/

/-- The attempt with number `k`, counted from 0, is the first that does not answer that the machine is
running. -/
structure EndsAt (m : Machine μ) (k : Nat) : Prop where
  running : ∀ j < k, (m.after j).step.1 = .ok .running
  ended : (m.after k).step.1 ≠ .ok .running

theorem EndsAt.unique {m : Machine μ} {j k : Nat} (hj : m.EndsAt j) (hk : m.EndsAt k) : j = k := by
  rcases Nat.lt_trichotomy j k with hlt | heq | hlt
  · exact absurd (hk.running j hlt) hj.ended
  · exact heq
  · exact absurd (hj.running k hlt) hk.ended

/-- Machines that answer the same stop at the same attempt. -/
theorem EndsAt.congr {ν : Type} [Medium ν] {m : Machine μ} {m' : Machine ν} {k : Nat} (h : m.EndsAt k)
    (hanswers : ∀ n, (m'.after n).step.1 = (m.after n).step.1) : m'.EndsAt k :=
  ⟨fun j hj => (hanswers j).trans (h.running j hj), fun heq => h.ended ((hanswers k).symm.trans heq)⟩

theorem endsAt_zero_iff {m : Machine μ} : m.EndsAt 0 ↔ m.step.1 ≠ .ok .running :=
  ⟨EndsAt.ended, fun h => ⟨fun j hj => absurd hj (Nat.not_lt_zero j), h⟩⟩

/-- Attempts that answer that the machine is running can be left out in front. -/
theorem endsAt_after_iff {m : Machine μ} {j : Nat} (h : ∀ i < j, (m.after i).step.1 = .ok .running)
    (k : Nat) : (m.after j).EndsAt k ↔ m.EndsAt (j + k) := by
  constructor
  · rintro ⟨hrunning, hended⟩
    refine ⟨fun i hi => ?_, by rwa [after_add] at hended⟩
    by_cases hij : i < j
    · exact h i hij
    · have := hrunning (i - j) (by omega)
      rwa [after_add, show j + (i - j) = i by omega] at this
  · rintro ⟨hrunning, hended⟩
    refine ⟨fun i hi => ?_, by rwa [after_add]⟩
    rw [after_add]
    exact hrunning (j + i) (by omega)

theorem endsAt_step_iff {m : Machine μ} (h : m.step.1 = .ok .running) (k : Nat) :
    m.step.2.EndsAt k ↔ m.EndsAt (k + 1) := by
  have hfirst : ∀ i < 1, (m.after i).step.1 = .ok .running := by
    intro i hi
    obtain rfl : i = 0 := by omega
    exact h
  rw [Nat.add_comm]
  exact endsAt_after_iff hfirst k

/-- If some attempt does not answer that the machine is running, one of the attempts up to it is the
first. -/
theorem exists_endsAt_of_ended {m : Machine μ} {n : Nat} (h : (m.after n).step.1 ≠ .ok .running) :
    ∃ k ≤ n, m.EndsAt k := by
  induction n using Nat.strongRecOn with
  | ind n ih =>
    by_cases hearlier : ∃ j < n, (m.after j).step.1 ≠ .ok .running
    · obtain ⟨j, hj, hended⟩ := hearlier
      obtain ⟨k, hk, hends⟩ := ih j hj hended
      exact ⟨k, by omega, hends⟩
    · have hrunning (j : Nat) (hj : j < n) : (m.after j).step.1 = .ok .running :=
        Classical.byContradiction fun hended => hearlier ⟨j, hj, hended⟩
      exact ⟨n, Nat.le_refl n, hrunning, h⟩

/-- A machine that answers that it is running has executed an instruction. -/
theorem executes_of_running {m : Machine μ} (h : m.step.1 = .ok .running) : m.executes = true := by
  cases m.attempt with
  | halted _ _ hstep => rw [hstep] at h; cases h
  | invalid _ _ _ hstep => rw [hstep] at h; cases h
  | blocked _ _ _ _ _ hstep => rw [hstep] at h; cases h
  | executed _ _ _ hexecutes _ => exact hexecutes

/-- An attempt that does not fail answers whether the machine can go on from where it is left. -/
theorem status_of_step_ok {m : Machine μ} {s : Status} (h : m.step.1 = .ok s) : m.step.2.status = s := by
  cases m.attempt with
  | halted hfetch _ hstep =>
    rw [hstep] at h ⊢
    cases h
    rw [status, fetch?_eq_none_iff.mp hfetch]
    rfl
  | invalid _ _ _ hstep => rw [hstep] at h; cases h
  | blocked _ _ _ _ _ hstep => rw [hstep] at h; cases h
  | executed _ _ _ _ hstep =>
    rw [hstep] at h ⊢
    cases h
    rfl

theorem isHalted_step_of_running {m : Machine μ} (h : m.step.1 = .ok .running) :
    m.step.2.isHalted = false := by
  simpa [status] using status_of_step_ok h

theorem isHalted_step_of_halted {m : Machine μ} (h : m.step.1 = .ok .halted) :
    m.step.2.isHalted = true := by
  simpa [status] using status_of_step_ok h

theorem executions_of_running {m : Machine μ} {n : Nat}
    (h : ∀ j < n, (m.after j).step.1 = .ok .running) : m.executions n = n :=
  executions_eq_iff.mpr fun j hj => executes_of_running (h j hj)

theorem executions_of_executes {m : Machine μ} {k : Nat} (h : ∀ j < k, (m.after j).step.1 = .ok .running)
    (hlast : (m.after k).executes = true) : m.executions (k + 1) = k + 1 := by
  rw [executions_succ, executions_of_running h, if_pos hlast]

/-! ## After the last attempt

Unless the sink was why, further attempts change nothing: the machine is halted, or there is no character
to print. -/

theorem step_step_of_ended {m : Machine μ} (h : m.step.1 ≠ .ok .running) (hsink : ¬ m.SinkFails) :
    m.step.2.step.2 = m.step.2 := by
  cases m.attempt with
  | halted _ _ hstep =>
    have hsame : m.step.2 = m := congrArg Prod.snd hstep
    rw [hsame, hsame]
  | invalid _ _ _ hstep =>
    have hsame : m.step.2 = m := congrArg Prod.snd hstep
    rw [hsame, hsame]
  | blocked _ _ _ _ _ hstep => exact absurd ⟨_, congrArg Prod.fst hstep⟩ hsink
  | @executed _ effect sink _ _ _ _ hstep =>
    have hhalted : (commit { m with sink } effect).isHalted = true := by
      cases hcase : (commit { m with sink } effect).isHalted with
      | true => rfl
      | false =>
        rw [hstep, status, hcase] at h
        exact absurd rfl h
    rw [hstep, step_of_isHalted hhalted]

theorem after_of_ended {m : Machine μ} {j n : Nat} (h : (m.after j).step.1 ≠ .ok .running)
    (hsink : ¬ (m.after j).SinkFails) (hn : j < n) : m.after n = m.after (j + 1) := by
  induction n with
  | zero => exact absurd hn (Nat.not_lt_zero j)
  | succ n ih =>
    by_cases hj : j = n
    · rw [hj]
    · rw [after, ih (by omega), after, step_step_of_ended h hsink]

/-- All attempts before one that prints have left the machine running. -/
theorem running_of_printing {m : Machine μ} (h : Medium.NeverFails m.sink.medium) {k : Nat}
    (hprints : (m.after (k + 1)).sink.stored ≠ (m.after k).sink.stored) {j : Nat} (hj : j < k) :
    (m.after j).step.1 = .ok .running := by
  refine Classical.byContradiction fun hended => ?_
  have hsink := not_sinkFails_of_neverFails (neverFails_after h j)
  have hk := after_of_ended hended hsink hj
  have hnext := after_of_ended (n := k + 1) hended hsink (by omega)
  rw [hk, hnext] at hprints
  exact hprints rfl

/-! ## What a run answers -/

/-- What a round of a run reports: the attempt, and that the machine has halted, if it has. -/
def reports (m : Machine μ) : List Event :=
  m.attempt?.toList ++
    match m.step with
    | (.ok .halted, m') => [.halted m'.steps m'.pc]
    | _ => []

section

variable {σ : Type} {record : σ → Event → σ} {began : UInt64} {state : σ} {budget k : Nat} {m : Machine μ}

theorem runFrom_of_running (h : m.step.1 = .ok .running) :
    runFrom record began state (budget + 1) m =
      runFrom record began (m.reports.foldl record state) budget m.step.2 := by
  have hstep : m.step = (.ok .running, m.step.2) := Prod.ext h rfl
  rw [runFrom, round, reports, hstep]
  cases m.attempt? <;> rfl

theorem runFrom_of_ended (h : m.step.1 ≠ .ok .running) :
    runFrom record began state (budget + 1) m =
      some ⟨m.step.1.map fun _ => m.step.2.steps - began, m.step.2, m.reports.foldl record state⟩ := by
  obtain ⟨answer, m', hstep⟩ : ∃ answer m', m.step = (answer, m') := ⟨_, _, rfl⟩
  rw [hstep] at h
  rw [runFrom, round, reports, hstep]
  cases answer with
  | error e => cases m.attempt? <;> rfl
  | ok status =>
    cases status with
    | running => exact absurd rfl h
    | halted => cases m.attempt? <;> rfl

/-- What the rounds of a run lead to, and what they report, in whatever way that is recorded. -/
theorem runFrom_of_endsAt (h : m.EndsAt k) (hbudget : k < budget) :
    runFrom record began state budget m =
      some ⟨(m.after k).step.1.map fun _ => (m.after (k + 1)).steps - began, m.after (k + 1),
        ((m.trail (k + 1)).flatMap reports).foldl record state⟩ := by
  obtain ⟨budget, rfl⟩ := Nat.exists_eq_add_one_of_ne_zero (Nat.ne_zero_of_lt hbudget)
  -- on the attempts before the last, each of which takes one from the budget
  induction k generalizing m budget state with
  | zero =>
    rw [runFrom_of_ended (m := m) h.ended, trail_succ_eq_cons, List.flatMap_cons, List.foldl_append]
    rfl
  | succ k ih =>
    have hfirst : m.step.1 = .ok .running := h.running 0 (Nat.succ_pos k)
    obtain ⟨budget, rfl⟩ := Nat.exists_eq_add_one_of_ne_zero (n := budget) (by omega)
    rw [runFrom_of_running hfirst, ih ((endsAt_step_iff hfirst k).mpr h) budget (by omega),
      trail_succ_eq_cons m (k + 1), List.flatMap_cons, List.foldl_append, after_step, after_step]

theorem exists_endsAt_of_runFrom {r : RecordedRun μ σ} (h : runFrom record began state budget m = some r) :
    ∃ k < budget, m.EndsAt k := by
  -- on the budget: the run ends at once, or after one attempt it is a run with one attempt less
  induction budget generalizing m state with
  | zero => cases h
  | succ budget ih =>
    by_cases hfirst : m.step.1 = .ok .running
    · rw [runFrom_of_running hfirst] at h
      obtain ⟨k, hk, hends⟩ := ih h
      exact ⟨k + 1, by omega, (endsAt_step_iff hfirst k).mp hends⟩
    · exact ⟨0, by omega, endsAt_zero_iff.mpr hfirst⟩

/-- **What is reported does not matter for the run.** A run that is recorded in another way comes to the same
end, and has recorded the same events. -/
theorem runInto_eq_map_run (record : σ → Event → σ) (state : σ) (budget : Nat) (m : Machine μ) :
    m.runInto record state budget =
      (m.run budget).map fun r => ⟨r.result, r.machine, r.events.toList.foldl record state⟩ := by
  cases hrun : m.run budget with
  | some r =>
    obtain ⟨k, hk, hends⟩ := exists_endsAt_of_runFrom hrun
    rw [run, runInto, runFrom_of_endsAt hends hk, Option.some.injEq] at hrun
    subst hrun
    rw [runInto, runFrom_of_endsAt hends hk]
    simp
  | none =>
    cases hinto : m.runInto record state budget with
    | none => rfl
    | some r =>
      obtain ⟨k, hk, hends⟩ := exists_endsAt_of_runFrom hinto
      rw [run, runInto, runFrom_of_endsAt hends hk] at hrun
      cases hrun

end

/-- **A run that ends.** It answers the failure of the last attempt, or the number of instructions
executed in it, and leaves the machine as the last attempt left it. -/
theorem run_of_endsAt {budget k : Nat} {m : Machine μ} (h : m.EndsAt k) (hbudget : k < budget) :
    ∃ r, m.run budget = some r ∧
      r.result = (m.after k).step.1.map (fun _ => (m.after (k + 1)).steps - m.steps) ∧
      r.machine = m.after (k + 1) :=
  ⟨_, runFrom_of_endsAt h hbudget, rfl, rfl⟩

theorem exists_endsAt_of_run {budget : Nat} {m : Machine μ} {r : Run μ} (h : m.run budget = some r) :
    ∃ k < budget, m.EndsAt k ∧
      r.result = (m.after k).step.1.map (fun _ => (m.after (k + 1)).steps - m.steps) ∧
      r.machine = m.after (k + 1) := by
  obtain ⟨k, hk, hends⟩ := exists_endsAt_of_runFrom h
  obtain ⟨r', hr', hresult, hmachine⟩ := run_of_endsAt hends hk
  rw [h] at hr'
  cases hr'
  exact ⟨k, hk, hends, hresult, hmachine⟩

theorem exists_endsAt_of_run_error {budget : Nat} {m : Machine μ} {r : Run μ} {e : ExecutionError}
    (h : m.run budget = some r) (he : r.result = .error e) :
    ∃ k < budget, m.EndsAt k ∧ (m.after k).step.1 = .error e ∧ r.machine = m.after (k + 1) := by
  obtain ⟨k, hk, hends, hresult, hmachine⟩ := exists_endsAt_of_run h
  refine ⟨k, hk, hends, ?_, hmachine⟩
  rw [hresult] at he
  cases hlast : (m.after k).step.1 with
  | ok _ => rw [hlast] at he; cases he
  | error _ => rw [hlast] at he; cases he; rfl

theorem exists_endsAt_of_run_ok {budget : Nat} {m : Machine μ} {r : Run μ} {count : UInt64}
    (h : m.run budget = some r) (hcount : r.result = .ok count) :
    ∃ k < budget, m.EndsAt k ∧ (m.after k).step.1 = .ok .halted ∧ r.machine = m.after (k + 1) ∧
      count = .ofNat (m.executions (k + 1)) := by
  obtain ⟨k, hk, hends, hresult, hmachine⟩ := exists_endsAt_of_run h
  refine ⟨k, hk, hends, ?_⟩
  rw [hresult] at hcount
  cases hlast : (m.after k).step.1 with
  | error _ => rw [hlast] at hcount; cases hcount
  | ok status =>
    rw [hlast] at hcount
    cases hcount
    refine ⟨?_, hmachine, ?_⟩
    · cases status with
      | running => exact absurd hlast hends.ended
      | halted => rfl
    · rw [steps_after]
      grind

/-- A run that does not fail answers how many instructions it executed: all attempts before the last
executed one, and the last may have. -/
theorem exists_count_of_run {budget : Nat} {m : Machine μ} {r : Run μ} {count : UInt64}
    (h : m.run budget = some r) (hcount : r.result = .ok count) :
    ∃ k < budget, m.EndsAt k ∧ k ≤ m.executions (k + 1) ∧ count = .ofNat (m.executions (k + 1)) := by
  obtain ⟨k, hk, hends, _, _, hexecutions⟩ := exists_endsAt_of_run_ok h hcount
  refine ⟨k, hk, hends, ?_, hexecutions⟩
  rw [executions_succ, executions_of_running hends.running]
  omega

/-- A budget that is too small gives no answer. -/
theorem run_eq_none_of_endsAt {budget k : Nat} {m : Machine μ} (h : m.EndsAt k)
    (hbudget : budget ≤ k) : m.run budget = none := by
  cases hrun : m.run budget with
  | none => rfl
  | some r =>
    obtain ⟨j, hj, hends, _, _⟩ := exists_endsAt_of_run hrun
    have := hends.unique h
    omega

/-- A run ends with this result and leaves this machine. -/
def RunsTo (m : Machine μ) (result : Except ExecutionError UInt64) (m' : Machine μ) : Prop :=
  ∃ budget r, m.run budget = some r ∧ r.result = result ∧ r.machine = m'

theorem runsTo_of_endsAt {m : Machine μ} {k : Nat} (h : m.EndsAt k) :
    m.RunsTo ((m.after k).step.1.map fun _ => .ofNat (m.executions (k + 1))) (m.after (k + 1)) := by
  obtain ⟨r, hr, hresult, hmachine⟩ := run_of_endsAt h (Nat.lt_succ_self k)
  refine ⟨k + 1, r, hr, ?_, hmachine⟩
  rw [hresult, steps_after]
  congr 1
  funext _
  grind

/-- A run never ends exactly if all attempts answer that the machine is running. -/
theorem forall_run_eq_none_iff {m : Machine μ} :
    (∀ budget, m.run budget = none) ↔ ∀ n, (m.after n).step.1 = .ok .running := by
  constructor
  · intro h n
    refine Classical.byContradiction fun hended => ?_
    -- the first attempt that answered otherwise would end the run
    obtain ⟨k, _, hends⟩ := exists_endsAt_of_ended hended
    obtain ⟨r, hr, _, _⟩ := run_of_endsAt hends (Nat.lt_succ_self k)
    rw [h] at hr
    cases hr
  · intro h budget
    cases hrun : m.run budget with
    | none => rfl
    | some r =>
      obtain ⟨k, _, hends, _, _⟩ := exists_endsAt_of_run hrun
      exact absurd (h k) hends.ended

end RegisterMachine.Machine
