import RegisterMachine.Proofs.Machine.Failure

/-!
# Runs are iterated attempts

A run attempts instructions until an attempt answers something else than that the machine is running. So a
run can be made by hand, attempt by attempt, and it can be broken off after any number of attempts and
made up by another run, behind the end of the program too: a machine that is halted stays as it is.

* **`Succeeds`** — the first attempts do not fail.
* **`runsTo_ok_iff`**, **`runsTo_error_iff`** — runs that do not fail, and runs that do, told from attempts.
* **`runsTo_ok_after_iff`**, **`runsTo_error_after_iff`** — runs that go on after attempts.
* **`idle_of_isHalted`** — a halted machine stays as it is.
* **`run_iterates_attempts`** — all of it.
-/

namespace RegisterMachine.Machine

variable {μ : Type} [Medium μ]

/-! ## Attempts that do not fail -/

/-- The first `n` attempts do not fail. -/
def Succeeds (m : Machine μ) (n : Nat) : Prop :=
  ∀ j < n, (m.after j).step.1.isOk = true

instance (m : Machine μ) (n : Nat) : Decidable (m.Succeeds n) :=
  inferInstanceAs (Decidable (∀ j < n, (m.after j).step.1.isOk = true))

theorem isOk_iff {answer : Except ExecutionError Status} :
    answer.isOk = true ↔ answer = .ok .running ∨ answer = .ok .halted := by
  cases answer with
  | error e => exact ⟨nofun, nofun⟩
  | ok status => cases status <;> simp [Except.isOk, Except.toBool]

theorem succeeds_add_iff {m : Machine μ} {k n : Nat} :
    m.Succeeds (k + n) ↔ m.Succeeds k ∧ (m.after k).Succeeds n := by
  constructor
  · intro h
    refine ⟨fun j hj => h j (by omega), fun j hj => ?_⟩
    rw [after_add]
    exact h (k + j) (by omega)
  · rintro ⟨hfirst, hrest⟩ j hj
    by_cases hjk : j < k
    · exact hfirst j hjk
    · have hlater := hrest (j - k) (by omega)
      rwa [after_add, Nat.add_sub_cancel' (by omega)] at hlater

theorem succeeds_of_running {m : Machine μ} {n : Nat}
    (h : ∀ j < n, (m.after j).step.1 = .ok .running) : m.Succeeds n := by
  intro j hj
  rw [h j hj]
  rfl

/-- Attempts before a machine that is running have answered that it is. -/
theorem Succeeds.running {m : Machine μ} {n : Nat} (h : m.Succeeds n)
    (hrunning : (m.after n).isHalted = false) {j : Nat} (hj : j < n) :
    (m.after j).step.1 = .ok .running := by
  have hnext : (m.after j).step.2.isHalted = false := isHalted_of_le (j := j + 1) hrunning hj
  rcases isOk_iff.mp (h j hj) with hanswer | hanswer
  · exact hanswer
  · rw [isHalted_step_of_halted hanswer] at hnext
    cases hnext

/-! ## Behind the end of the program -/

/-- **A halted machine stays as it is.** -/
theorem idle_of_isHalted {m : Machine μ} (h : m.isHalted = true) : m.Idle (.ok .halted) :=
  ⟨nofun, fun _ => step_of_isHalted h⟩

theorem after_eq_of_isHalted {m : Machine μ} {j n : Nat} (h : (m.after j).isHalted = true)
    (hj : j ≤ n) : m.after n = m.after j ∧ m.executions n = m.executions j := by
  obtain ⟨i, rfl⟩ := Nat.exists_eq_add_of_le hj
  rw [← after_add, after_of_isHalted h, executions_add, executions_of_isHalted h]
  exact ⟨rfl, rfl⟩

theorem succeeds_of_isHalted {m : Machine μ} (h : m.isHalted = true) (n : Nat) : m.Succeeds n := by
  intro j _
  rw [after_of_isHalted h, step_of_isHalted h]
  rfl

/-! ## Runs told from attempts -/

/-- **Runs that do not fail** answer how many instructions were executed by attempts that do not fail and
leave the machine halted, and it makes no difference how many of them come after that. -/
theorem runsTo_ok_iff {m m' : Machine μ} {count : UInt64} :
    m.RunsTo (.ok count) m' ↔ ∃ n, m.Succeeds n ∧ (m.after n).isHalted = true ∧
      count = .ofNat (m.executions n) ∧ m' = m.after n := by
  constructor
  · rintro ⟨budget, r, hrun, hresult, rfl⟩
    obtain ⟨k, _, hends, hlast, hmachine, hcount⟩ := exists_endsAt_of_run_ok hrun hresult
    refine ⟨k + 1, succeeds_add_iff.mpr ⟨succeeds_of_running hends.running, ?_⟩,
      isHalted_step_of_halted hlast, hcount, hmachine⟩
    intro j hj
    obtain rfl : j = 0 := by omega
    exact isOk_iff.mpr (.inr hlast)
  · rintro ⟨n, hsucceeds, hhalted, rfl, rfl⟩
    have hanswer : (m.after n).step.1 = .ok .halted := by rw [step_of_isHalted hhalted]
    have hended : (m.after n).step.1 ≠ .ok .running := by
      rw [hanswer]
      nofun
    obtain ⟨k, hk, hends⟩ := exists_endsAt_of_ended hended
    -- the run ends with the first attempt that leaves the machine halted
    have hlast : (m.after k).step.1 = .ok .halted := by
      by_cases hkn : k = n
      · rw [hkn, hanswer]
      · exact (isOk_iff.mp (hsucceeds k (by omega))).resolve_left hends.ended
    have hrun := runsTo_of_endsAt hends
    rw [hlast] at hrun
    by_cases hkn : k = n
    · subst hkn
      obtain ⟨hsame, hcount⟩ := after_eq_of_isHalted (n := k + 1) hhalted (by omega)
      rwa [hsame, hcount] at hrun
    · have hfirst : (m.after (k + 1)).isHalted = true := isHalted_step_of_halted hlast
      obtain ⟨hsame, hcount⟩ := after_eq_of_isHalted (n := n) hfirst (by omega)
      rwa [← hsame, ← hcount] at hrun

/-- **Runs that fail** fail as the first attempt does that does not answer that the machine is running. -/
theorem runsTo_error_iff {m m' : Machine μ} {e : ExecutionError} :
    m.RunsTo (.error e) m' ↔ ∃ k, (∀ j < k, (m.after j).step.1 = .ok .running) ∧
      (m.after k).step.1 = .error e ∧ m' = m.after (k + 1) := by
  constructor
  · rintro ⟨budget, r, hrun, hresult, rfl⟩
    obtain ⟨k, _, hends, hlast, hmachine⟩ := exists_endsAt_of_run_error hrun hresult
    exact ⟨k, hends.running, hlast, hmachine⟩
  · rintro ⟨k, hrunning, hlast, rfl⟩
    have hended : (m.after k).step.1 ≠ .ok .running := by
      rw [hlast]
      nofun
    have hrun := runsTo_of_endsAt ⟨hrunning, hended⟩
    rwa [hlast] at hrun

/-! ## Runs that go on after attempts -/

theorem runsTo_error_after_iff {m m' : Machine μ} {k : Nat} {e : ExecutionError} (h : m.Succeeds k) :
    (m.after k).RunsTo (.error e) m' ↔ m.RunsTo (.error e) m' := by
  rw [runsTo_error_iff, runsTo_error_iff]
  constructor
  · rintro ⟨n, hrunning, hlast, rfl⟩
    have hinside : (m.after k).isHalted = false :=
      isHalted_of_le (j := 0) (isHalted_of_step_error hlast) (Nat.zero_le n)
    refine ⟨k + n, fun j hj => ?_, by rwa [after_add] at hlast, by rw [after_add, Nat.add_assoc]⟩
    by_cases hjk : j < k
    · exact h.running hinside hjk
    · have hlater := hrunning (j - k) (by omega)
      rwa [after_add, Nat.add_sub_cancel' (by omega)] at hlater
  · rintro ⟨n, hrunning, hlast, rfl⟩
    have hkn : k ≤ n := by
      refine Nat.le_of_not_lt fun hlt => ?_
      have hok := h n hlt
      rw [hlast] at hok
      cases hok
    obtain ⟨i, rfl⟩ := Nat.exists_eq_add_of_le hkn
    refine ⟨i, fun j hj => ?_, by rwa [after_add], by rw [after_add, Nat.add_assoc]⟩
    rw [after_add]
    exact hrunning (k + j) (by omega)

theorem runsTo_ok_after_iff {m m' : Machine μ} {k : Nat} {count : UInt64} (h : m.Succeeds k) :
    (m.after k).RunsTo (.ok count) m' ↔ m.RunsTo (.ok (.ofNat (m.executions k) + count)) m' := by
  rw [runsTo_ok_iff, runsTo_ok_iff]
  constructor
  · rintro ⟨n, hsucceeds, hhalted, rfl, rfl⟩
    refine ⟨k + n, succeeds_add_iff.mpr ⟨h, hsucceeds⟩, by rwa [after_add] at hhalted, ?_,
      after_add m k n⟩
    rw [executions_add, UInt64.ofNat_add]
  · rintro ⟨n, hsucceeds, hhalted, hcount, rfl⟩
    -- attempts on the halted machine make up for a run that ended before the attempts did
    obtain ⟨hsame, hexecutions⟩ := after_eq_of_isHalted (n := k + n) hhalted (by omega)
    refine ⟨n, ?_, by rwa [after_add, hsame], ?_, by rw [after_add, hsame]⟩
    · have hall : m.Succeeds (n + k) :=
        succeeds_add_iff.mpr ⟨hsucceeds, succeeds_of_isHalted hhalted k⟩
      rw [Nat.add_comm] at hall
      exact (succeeds_add_iff.mp hall).2
    · rw [← hexecutions, executions_add, UInt64.ofNat_add] at hcount
      exact (UInt64.add_right_inj _).mp hcount

/-! ## Runs and attempts -/

/-- The step counter is exact as long as it does not overflow. -/
theorem toNat_steps_after {m : Machine μ} {n : Nat}
    (h : m.steps.toNat + m.executions n < UInt64.size) :
    (m.after n).steps.toNat = m.steps.toNat + m.executions n := by
  rw [steps_after, UInt64.toNat_add, UInt64.toNat_ofNat', Nat.add_mod_mod]
  exact Nat.mod_eq_of_lt h

/-- **A run is iterated attempts, and halting is permanent.** An attempt that does not fail answers that the
machine is halted exactly if it leaves it so. A run that does not fail leaves the machine as any number of
attempts that do not fail and leave it halted, and answers how many instructions they execute; that
number is exact as long as the step counter does not overflow. A run fails exactly as the first attempt that
does not answer that the machine is running. After attempts that do not fail, a run ends as one from the
beginning does: it leaves the same machine, with the same failure, or with a number of instructions that
together with those executed before gives the number for the whole. On a halted machine every attempt and
every run, in whatever later session, says that it is halted and changes nothing. -/
theorem run_iterates_attempts (m : Machine μ) :
    (∀ status, m.step.1 = .ok status → (status = .halted ↔ m.step.2.isHalted = true)) ∧
      (∀ count m', m.RunsTo (.ok count) m' ↔ ∃ n, m.Succeeds n ∧ (m.after n).isHalted = true ∧
        count = .ofNat (m.executions n) ∧ m' = m.after n) ∧
      (∀ n, m.steps.toNat + m.executions n < UInt64.size →
        (UInt64.ofNat (m.executions n)).toNat = m.executions n ∧
          (m.after n).steps.toNat = m.steps.toNat + m.executions n) ∧
      (∀ e m', m.RunsTo (.error e) m' ↔ ∃ k, (∀ j < k, (m.after j).step.1 = .ok .running) ∧
        (m.after k).step.1 = .error e ∧ m' = m.after (k + 1)) ∧
      (∀ k, m.Succeeds k → ∀ m',
        (∀ e, (m.after k).RunsTo (.error e) m' ↔ m.RunsTo (.error e) m') ∧
          ∀ count, (m.after k).RunsTo (.ok count) m' ↔
            m.RunsTo (.ok (.ofNat (m.executions k) + count)) m') ∧
      (m.isHalted = true → (∀ n, (m.after n).step = (.ok .halted, m)) ∧ m.RunsTo (.ok 0) m ∧
        ∀ budget calls, m.performAll (budget + 1) calls =
          some (calls.map (Call.answerWhenIdle (.ok .halted)),
            { m with sink := m.sink.adjust (Call.changes calls) })) := by
  refine ⟨fun status hstatus => ?_, fun _ _ => runsTo_ok_iff, fun n hfew => ?_,
    fun _ _ => runsTo_error_iff,
    fun k hk m' => ⟨fun _ => runsTo_error_after_iff hk, fun _ => runsTo_ok_after_iff hk⟩,
    fun hhalted => ⟨fun n => ?_, ?_, (idle_of_isHalted hhalted).performAll_eq⟩⟩
  · have hleft := status_of_step_ok hstatus
    rw [← hleft, Machine.status]
    split <;> simp_all
  · refine ⟨UInt64.toNat_ofNat_of_lt' ?_, toNat_steps_after hfew⟩
    exact Nat.lt_of_le_of_lt (Nat.le_add_left _ _) hfew
  · rw [after_of_isHalted hhalted, step_of_isHalted hhalted]
  · exact runsTo_ok_iff.mpr ⟨0, succeeds_of_isHalted hhalted 0, hhalted, rfl, rfl⟩

/-- The comparison at the end leaves the program. Two attempts and a run, five attempts and a run, and a
run alone all execute three instructions. -/
theorem run_iterates_attempts_split :
    let p : Program := #[.inc (.literal 0) (.literal 5), .printNumber (.register 0),
      .test (.register 0) (.literal 5)]
    let m := Machine.start p Unlimited.mk
    m.Succeeds 2 ∧ m.Succeeds 5 ∧ (m.after 3).isHalted = true ∧ (m.after 3).pc = 4 ∧
      m.RunsTo (.ok 3) (m.after 3) ∧ (m.after 2).RunsTo (.ok 1) (m.after 3) ∧
      (m.after 5).RunsTo (.ok 0) (m.after 3) := by
  intro p m
  have htwo : m.Succeeds 2 := by decide +kernel
  have hthree : m.Succeeds 3 := by decide +kernel
  have hfive : m.Succeeds 5 := by decide +kernel
  have hhalted : (m.after 3).isHalted = true := by decide +kernel
  obtain ⟨_, hruns, _, _, hgoesOn, _⟩ := run_iterates_attempts m
  have hwhole : m.RunsTo (.ok 3) (m.after 3) :=
    (hruns 3 (m.after 3)).mpr ⟨3, hthree, hhalted, by decide +kernel, rfl⟩
  have hexecuted : m.executions 2 = 2 ∧ m.executions 5 = 3 := by decide +kernel
  have hlater := (hgoesOn 2 htwo (m.after 3)).2 1
  have hbehind := (hgoesOn 5 hfive (m.after 3)).2 0
  rw [hexecuted.1] at hlater
  rw [hexecuted.2] at hbehind
  exact ⟨htwo, hfive, hhalted, by decide +kernel, hwhole, hlater.mpr hwhole, hbehind.mpr hwhole⟩

end RegisterMachine.Machine
