import RegisterMachine.Proofs.Effect
import RegisterMachine.Proofs.Machine.Iteration

/-!
# Programs that only jump forward

If every jump leads to a literal address behind the jump itself, each executed instruction moves the
counter forward. So the counter bounds the number of executed instructions, no instruction is executed
twice, and every run ends. A program without jumps goes through its addresses one by one, but for those
that are left out after a comparison of equal values, so its counter is known from the number of executed
instructions and of such comparisons.

* **`Program.JumpsForward`** — the condition on the program.
* **`pc_lt_pc_step`** — the step: the counter moves forward.
* **`executions_le_pc`**, **`pairwise_executedAddresses`**, **`executions_le_size`** — a row of attempts.
* **`exists_endsAt_le_size`** — so the attempts come to an end.
* **`pc_step_of_no_jump`**, **`pc_after_of_no_jump`** — the counter of a program without jumps, exactly.
* **`forward_programs_terminate`** — runs of such programs.
-/

namespace RegisterMachine

/-- Every jump of the program leads to a literal address behind the jump. -/
def Program.JumpsForward (p : Program) : Prop :=
  ∀ (k : Nat) (target : Operand), p[k]? = some (.goto target) →
    ∃ value : UInt8, target = .literal value ∧ k < value.toNat

theorem Program.jumpsForward_of_no_jump {p : Program} (h : ∀ target, .goto target ∉ p) :
    p.JumpsForward :=
  fun _ target hjump => absurd (Array.mem_of_getElem? hjump) (h target)

namespace Machine

open Medium

variable {μ : Type}

/-! ## One instruction -/

/-- There is an address for whatever follows an instruction of the program. -/
theorem advance_of_fetch? {m : Machine μ} {i : Instr} (hsize : m.program.size < maxAddress)
    (h : m.fetch? = some i) : advance m.pc 1 = m.pc + 1 ∧ advance m.pc 2 = m.pc + 2 := by
  have hinside : m.pc < m.program.size := (Array.getElem?_eq_some_iff.mp h).1
  unfold advance
  omega

variable [Medium μ]

theorem pc_lt_size_of_executes {m : Machine μ} (h : m.executes = true) : m.pc < m.program.size := by
  obtain ⟨i, _, hfetch, _⟩ := pc_step_of_executes h
  exact (Array.getElem?_eq_some_iff.mp hfetch).1

/-- **Executed instructions move the counter forward.** -/
theorem pc_lt_pc_step {m : Machine μ} (hsize : m.program.size < maxAddress)
    (hforward : m.program.JumpsForward) (h : m.executes = true) : m.pc < m.step.2.pc := by
  obtain ⟨i, effect, hfetch, heffect, hpc⟩ := pc_step_of_executes h
  obtain ⟨hnext, hskip⟩ := advance_of_fetch? hsize hfetch
  rw [hpc]
  cases htransfer : effect.transfer with
  | next =>
    rw [follow, hnext]
    omega
  | skip =>
    rw [follow, hskip]
    omega
  | jump address =>
    obtain ⟨target, rfl, htarget⟩ := (Instr.transfer_eq_jump_iff heffect).mp htransfer
    obtain ⟨value, rfl, hlt⟩ := hforward m.pc target hfetch
    obtain rfl : Word.ofByte value = address := htarget
    have hnonneg : ¬ Word.ofByte value < 0 := Int64.not_lt.mpr (Word.ofByte_bounds value).1
    rw [follow, if_neg hnonneg, Word.toInt_ofByte, Int.toNat_natCast]
    exact hlt

/-- The next attempt executes a comparison of equal values. -/
def skips (m : Machine μ) : Bool :=
  m.executes && m.fetch?.any (Instr.skips m.registers)

/-- Without jumps, the counter moves on by one, and by one more behind a comparison of equal values. -/
theorem pc_step_of_no_jump {m : Machine μ} (hsize : m.program.size < maxAddress)
    (hgoto : ∀ target, .goto target ∉ m.program) :
    m.step.2.pc = m.pc + (if m.executes then 1 else 0) + if m.skips then 1 else 0 := by
  cases hexecutes : m.executes with
  | false =>
    rw [pc_step_of_not_executes hexecutes, skips, hexecutes]
    rfl
  | true =>
    obtain ⟨i, effect, hfetch, heffect, hpc⟩ := pc_step_of_executes hexecutes
    obtain ⟨hnext, hskip⟩ := advance_of_fetch? hsize hfetch
    have hskips : m.skips = i.skips m.registers := by
      rw [skips, hexecutes, hfetch]
      rfl
    have htransfer := Instr.transfer_eq_skip_iff heffect
    rw [hpc, hskips]
    cases hcase : effect.transfer with
    | next =>
      have hfalse : i.skips m.registers = false := by
        rw [← Bool.not_eq_true, ← htransfer, hcase]
        nofun
      rw [follow, hnext, hfalse]
      rfl
    | skip =>
      rw [follow, hskip, htransfer.mp hcase]
      rfl
    | jump address =>
      obtain ⟨target, rfl, _⟩ := (Instr.transfer_eq_jump_iff heffect).mp hcase
      exact absurd (Array.mem_of_getElem? hfetch) (hgoto target)

/-! ## A row of attempts -/

/-- The addresses of the instructions that the first `n` attempts execute, in the order of execution. -/
def executedAddresses (m : Machine μ) (n : Nat) : List Nat :=
  ((m.trail n).filter executes).map pc

theorem executedAddresses_succ (m : Machine μ) (n : Nat) :
    m.executedAddresses (n + 1) =
      m.executedAddresses n ++ if (m.after n).executes then [(m.after n).pc] else [] := by
  rw [executedAddresses, trail_succ, List.filter_append, List.map_append]
  cases hexecutes : (m.after n).executes <;> simp [executedAddresses, hexecutes]

theorem length_executedAddresses (m : Machine μ) (n : Nat) :
    (m.executedAddresses n).length = m.executions n := by
  rw [executedAddresses, List.length_map, ← List.countP_eq_length_filter, executions_eq_countP_trail]

section Forward

variable {m : Machine μ}

theorem pc_le_pc_step (hsize : m.program.size < maxAddress) (hforward : m.program.JumpsForward) :
    m.pc + (if m.executes then 1 else 0) ≤ m.step.2.pc := by
  cases hexecutes : m.executes with
  | false => exact Nat.le_of_eq (pc_step_of_not_executes hexecutes).symm
  | true => exact pc_lt_pc_step hsize hforward hexecutes

theorem pc_le_pc_after_succ (hsize : m.program.size < maxAddress)
    (hforward : m.program.JumpsForward) (n : Nat) :
    (m.after n).pc + (if (m.after n).executes then 1 else 0) ≤ (m.after (n + 1)).pc := by
  apply pc_le_pc_step
  · rwa [program_after]
  · rwa [program_after]

/-- The counter is at least the number of executed instructions. -/
theorem executions_le_pc (hsize : m.program.size < maxAddress) (hforward : m.program.JumpsForward)
    (n : Nat) : m.executions n ≤ (m.after n).pc := by
  induction n with
  | zero => exact Nat.zero_le _
  | succ n ih =>
    have hstep := pc_le_pc_after_succ hsize hforward n
    rw [executions_succ]
    omega

/-- **No more instructions are executed than there are.** -/
theorem executions_le_size (hsize : m.program.size < maxAddress) (hforward : m.program.JumpsForward)
    (n : Nat) : m.executions n ≤ m.program.size := by
  induction n with
  | zero => exact Nat.zero_le _
  | succ n ih =>
    rw [executions_succ]
    cases hexecutes : (m.after n).executes with
    | false => exact ih
    | true =>
      have hinside := pc_lt_size_of_executes hexecutes
      have hcount := executions_le_pc hsize hforward n
      rw [program_after] at hinside
      rw [if_pos rfl]
      omega

theorem lt_pc_of_mem_executedAddresses (hsize : m.program.size < maxAddress)
    (hforward : m.program.JumpsForward) (n : Nat) :
    ∀ k ∈ m.executedAddresses n, k < (m.after n).pc := by
  induction n with
  | zero => exact fun k hk => absurd hk List.not_mem_nil
  | succ n ih =>
    intro k hk
    have hstep := pc_le_pc_after_succ hsize hforward n
    rw [executedAddresses_succ, List.mem_append, List.mem_ite_nil_right, List.mem_singleton] at hk
    rcases hk with hearlier | ⟨hexecutes, rfl⟩
    · have := ih k hearlier
      omega
    · rw [if_pos hexecutes] at hstep
      omega

/-- **Addresses of executed instructions increase**, so no instruction is executed twice. -/
theorem pairwise_executedAddresses (hsize : m.program.size < maxAddress)
    (hforward : m.program.JumpsForward) (n : Nat) : (m.executedAddresses n).Pairwise (· < ·) := by
  induction n with
  | zero => exact .nil
  | succ n ih =>
    rw [executedAddresses_succ, List.pairwise_append]
    refine ⟨ih, ?_, fun k hk k' hk' => ?_⟩
    · split
      · exact List.pairwise_singleton _ _
      · exact .nil
    · rw [List.mem_ite_nil_right, List.mem_singleton] at hk'
      rw [hk'.2]
      exact lt_pc_of_mem_executedAddresses hsize hforward n k hk

/-- **The attempts come to an end.** -/
theorem exists_endsAt_le_size (hsize : m.program.size < maxAddress)
    (hforward : m.program.JumpsForward) : ∃ k ≤ m.program.size, m.EndsAt k := by
  by_cases hended : ∃ n ≤ m.program.size, (m.after n).step.1 ≠ .ok .running
  · obtain ⟨n, hn, hended⟩ := hended
    obtain ⟨k, hk, hends⟩ := exists_endsAt_of_ended hended
    exact ⟨k, by omega, hends⟩
  · -- each of the attempts would have executed an instruction, and there are not as many
    have hrunning (j : Nat) (hj : j < m.program.size + 1) : (m.after j).step.1 = .ok .running :=
      Classical.byContradiction fun hanswer => hended ⟨j, by omega, hanswer⟩
    have hcount := executions_le_size hsize hforward (m.program.size + 1)
    rw [executions_of_running hrunning] at hcount
    omega

end Forward

theorem pc_after_succ_of_no_jump {m : Machine μ} (hsize : m.program.size < maxAddress)
    (hgoto : ∀ target, .goto target ∉ m.program) (n : Nat) :
    (m.after (n + 1)).pc = (m.after n).pc + (if (m.after n).executes then 1 else 0) +
      if (m.after n).skips then 1 else 0 := by
  apply pc_step_of_no_jump
  · rwa [program_after]
  · rwa [program_after]

/-- The counter of a program without jumps. -/
theorem pc_after_of_no_jump {m : Machine μ} (hsize : m.program.size < maxAddress)
    (hgoto : ∀ target, .goto target ∉ m.program) (n : Nat) :
    (m.after n).pc = m.pc + m.executions n + (m.trail n).countP skips := by
  induction n with
  | zero => rfl
  | succ n ih =>
    have hstep := pc_after_succ_of_no_jump hsize hgoto n
    rw [hstep, ih, executions_succ, trail_succ, List.countP_append, List.countP_singleton]
    omega

/-- An executed instruction of a program without jumps leads at most one address behind the end. -/
theorem pc_after_le_of_no_jump {m : Machine μ} (hsize : m.program.size < maxAddress)
    (hgoto : ∀ target, .goto target ∉ m.program) (hstart : m.pc ≤ m.program.size + 1) (n : Nat) :
    (m.after n).pc ≤ m.program.size + 1 := by
  induction n with
  | zero => exact hstart
  | succ n ih =>
    have hstep := pc_after_succ_of_no_jump hsize hgoto n
    cases hexecutes : (m.after n).executes with
    | false =>
      have hskips : (m.after n).skips = false := by
        rw [skips, hexecutes]
        rfl
      rw [hexecutes, hskips] at hstep
      exact Nat.le_trans (Nat.le_of_eq hstep) ih
    | true =>
      have hinside := pc_lt_size_of_executes hexecutes
      rw [program_after] at hinside
      rw [hstep, hexecutes, if_pos rfl]
      split <;> omega

/-! ## Runs -/

/-- **Programs without backward jumps terminate.** Let every jump of a program lead to a literal address
behind the jump, and let there be an address for each of its instructions. On a medium that never fails, a
run ends, and if it fails, then for lack of a character to print. At no time have more instructions been
executed than the program has, and the addresses of those that have been executed increase, so none of
them was executed twice. If the program has no jumps and the run does not fail, the counter is in the end at
the end of the program or one address behind it, and is the number of executed instructions and of executed
comparisons of equal values, taken together. If there were no such comparisons, every instruction was
executed. -/
theorem forward_programs_terminate {p : Program} {medium : μ} (hmedium : NeverFails medium)
    (hsize : p.size < maxAddress) (hforward : p.JumpsForward) :
    let m := Machine.start p medium
    (∃ n result, m.RunsTo result (m.after n) ∧
        ((∃ count, result = .ok count) ∨ ∃ value pc, result = .error (.invalidCodePoint value pc))) ∧
      (∀ n, (m.after n).steps.toNat = m.executions n ∧ m.executions n ≤ p.size ∧
        (m.executedAddresses n).length = m.executions n ∧
        (m.executedAddresses n).Pairwise (· < ·) ∧ (m.executedAddresses n).Nodup) ∧
      ((∀ target, .goto target ∉ p) → ∀ n count, m.RunsTo (.ok count) (m.after n) →
        count = (m.after n).steps ∧
          ((m.after n).pc = p.size ∨ (m.after n).pc = p.size + 1) ∧
          (m.after n).pc = (m.after n).steps.toNat + (m.trail n).countP skips ∧
          ((m.trail n).countP skips = 0 → count.toNat = p.size)) := by
  intro m
  have hcount (n : Nat) : m.executions n ≤ p.size := executions_le_size (m := m) hsize hforward n
  have hsteps (n : Nat) : (m.after n).steps.toNat = m.executions n := by
    have hfew : m.steps.toNat + m.executions n < UInt64.size := by
      have hle := hcount n
      have hzero : m.steps.toNat = 0 := rfl
      have hmax : maxAddress < UInt64.size := by decide
      omega
    rw [toNat_steps_after hfew]
    exact Nat.zero_add _
  refine ⟨?_, fun n => ?_, fun hgoto n count hrun => ?_⟩
  · obtain ⟨k, _, hends⟩ := exists_endsAt_le_size (m := m) hsize hforward
    refine ⟨k + 1, _, runsTo_of_endsAt hends, ?_⟩
    cases hlast : (m.after k).step.1 with
    | ok status => exact .inl ⟨_, rfl⟩
    | error e =>
      cases e with
      | output fault =>
        exact absurd ⟨fault, hlast⟩ (not_sinkFails_of_neverFails (neverFails_after hmedium k))
      | invalidCodePoint value pc => exact .inr ⟨value, pc, rfl⟩
  · have hincreasing := pairwise_executedAddresses (m := m) hsize hforward n
    exact ⟨hsteps n, hcount n, length_executedAddresses m n, hincreasing,
      hincreasing.imp Nat.ne_of_lt⟩
  · obtain ⟨n', _, hhalted, rfl, hsame⟩ := runsTo_ok_iff.mp hrun
    have hexecuted : UInt64.ofNat (m.executions n') = (m.after n).steps := by
      rw [hsame, steps_after]
      exact (UInt64.zero_add _).symm
    have hend : p.size ≤ (m.after n).pc := by
      rw [← hsame, isHalted, program_after, decide_eq_true_eq] at hhalted
      exact hhalted
    have hbound : (m.after n).pc ≤ p.size + 1 :=
      pc_after_le_of_no_jump (m := m) hsize hgoto (Nat.zero_le _) n
    have hpc : (m.after n).pc = (m.after n).steps.toNat + (m.trail n).countP skips := by
      rw [pc_after_of_no_jump (m := m) hsize hgoto n, hsteps]
      exact congrArg (· + _) (Nat.zero_add _)
    refine ⟨hexecuted, by omega, hpc, fun hnone => ?_⟩
    have hle := hcount n
    rw [← hsteps n] at hle
    rw [hexecuted]
    omega

/-- The comparison at the end leaves the program one address behind its end, and another program jumps
over a character that cannot be printed. -/
theorem forward_programs_terminate_skipped :
    let p : Program := #[.inc (.literal 0) (.literal 5), .test (.register 0) (.literal 5),
      .printNumber (.literal 9), .printNumber (.register 0), .test (.literal 1) (.literal 1)]
    let q : Program := #[.dec (.literal 0) (.literal 1), .goto (.literal 3),
      .printChar (.register 0)]
    let m := Machine.start p Unlimited.mk
    NeverFails Unlimited.mk ∧ p.size < maxAddress ∧ p.JumpsForward ∧ q.JumpsForward ∧
      m.RunsTo (.ok 4) (m.after 4) ∧ (m.after 4).pc = 6 ∧ (m.trail 4).countP skips = 2 ∧
      (m.executedAddresses 4).Pairwise (· < ·) ∧
      ∃ n result, (Machine.start q Unlimited.mk).RunsTo result
        ((Machine.start q Unlimited.mk).after n) := by
  intro p q m
  have hmedium := neverFails_unlimited Unlimited.mk
  have hp : ∀ target, .goto target ∉ p := by simp [p]
  have hq : q.JumpsForward := by
    intro k target hjump
    have hk : k < 3 := (Array.getElem?_eq_some_iff.mp hjump).1
    obtain rfl | rfl | rfl : k = 0 ∨ k = 1 ∨ k = 2 := by omega
    · cases hjump
    · cases hjump
      exact ⟨3, rfl, by decide⟩
    · cases hjump
  obtain ⟨_, hrows, hstraight⟩ := forward_programs_terminate (p := p) hmedium (by decide +kernel)
    (Program.jumpsForward_of_no_jump hp)
  obtain ⟨⟨n, result, hends, _⟩, _⟩ :=
    forward_programs_terminate (p := q) hmedium (by decide +kernel) hq
  have hrun : m.RunsTo (.ok 4) (m.after 4) :=
    runsTo_ok_iff.mpr ⟨4, by decide +kernel, by decide +kernel, by decide +kernel, rfl⟩
  have hskips : (m.trail 4).countP skips = 2 := by decide +kernel
  have hsteps : (m.after 4).steps.toNat = 4 := by decide +kernel
  obtain ⟨_, _, hpc, _⟩ := hstraight hp 4 4 hrun
  rw [hskips, hsteps] at hpc
  exact ⟨hmedium, by decide +kernel, Program.jumpsForward_of_no_jump hp, hq, hrun, hpc, hskips,
    (hrows 4).2.2.2.1, n, result, hends⟩

end Machine

end RegisterMachine
