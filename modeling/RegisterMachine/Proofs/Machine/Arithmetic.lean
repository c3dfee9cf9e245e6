import Mathlib.Algebra.Group.Nat.Defs
import RegisterMachine.Proofs.Machine.ForwardJumps
import RegisterMachine.Proofs.Machine.SinkIndependence

/-!
# Exact arithmetic

Addresses and the step counter have 64 bits. Additions to an address stop at the largest one and the step
counter wraps around, but in no state that a machine comes to does either of it happen.

A jump may lead far outside of the program, to any word that is not negative. The machine is halted there, so
nothing is added to such an address.

* **`executedJump?`** — the jump that the next attempt makes.
* **`pc_step_eq_or_jumps`** — where an executed instruction leads, without any bound on addresses.
* **`pc_step_le_or_jumps`**, **`ReachesVia.pc_le_or_jumped`** — the invariant of the counter: it is at most one
  behind the end of the program, or the address of the last jump.
* **`toNat_count_of_run`** — the number that a run answers is a difference of step counters.
* **`engine_arithmetic_is_exact`** — all of it, in every state.
-/

namespace RegisterMachine

/-- The address that an instruction jumps to, if it is a jump. -/
def Instr.jump? (registers : RegisterFile) : Instr → Option Word
  | goto target => some (registers.resolve target)
  | _ => none

theorem Instr.transfer_eq_jump_iff_jump? {i : Instr} {registers : RegisterFile} {effect : Effect}
    (h : i.effect registers = .ok effect) {address : Word} :
    effect.transfer = .jump address ↔ i.jump? registers = some address := by
  rw [transfer_eq_jump_iff h]
  cases i <;> simp [jump?]

namespace Machine

/-! ## Addresses of jumps -/

section Follow

variable {μ : Type} {m : Machine μ} {address : Word}

theorem follow_jump_of_neg (h : address < 0) : m.follow (.jump address) = m.program.size := by
  rw [follow, if_pos h]

theorem follow_jump_of_nonneg (h : 0 ≤ address) :
    m.follow (.jump address) = address.toInt.toNat := by
  rw [follow, if_neg (Int64.not_lt.mpr h)]

end Follow

/-- No word is lost when it becomes an address. -/
theorem natCast_toNat_of_nonneg {address : Word} (h : 0 ≤ address) :
    (address.toInt.toNat : Int) = address.toInt := by
  apply Int.toNat_of_nonneg
  exact Int64.le_iff_toInt_le.mp h

theorem toNat_toInt_lt (address : Word) : address.toInt.toNat < 2 ^ 63 := by
  have := address.toInt_lt
  omega

/-! ## One attempt -/

variable {μ : Type} [Medium μ]

/-- The address that the next attempt jumps to, if it executes a jump. -/
def executedJump? (m : Machine μ) : Option Word :=
  if m.executes then m.fetch?.bind (Instr.jump? m.registers) else none

theorem executedJump?_of_not_executes {m : Machine μ} (h : m.executes = false) :
    m.executedJump? = none := by
  rw [executedJump?, h]
  rfl

/-- An executed instruction leads to the next one or to that behind it, or it is a jump. -/
theorem pc_step_eq_or_jumps {m : Machine μ} (hsize : m.program.size < maxAddress)
    (h : m.executes = true) :
    (m.executedJump? = none ∧ (m.step.2.pc = m.pc + 1 ∨ m.step.2.pc = m.pc + 2)) ∨
      ∃ address, m.executedJump? = some address ∧ m.step.2.pc = m.follow (.jump address) := by
  obtain ⟨i, effect, hfetch, heffect, hpc⟩ := pc_step_of_executes h
  obtain ⟨hnext, hskip⟩ := advance_of_fetch? hsize hfetch
  have hjump : m.executedJump? = i.jump? m.registers := by
    rw [executedJump?, if_pos h, hfetch, Option.bind_some]
  have hnone (hother : ∀ address, effect.transfer ≠ .jump address) : m.executedJump? = none := by
    rw [hjump, Option.eq_none_iff_forall_ne_some]
    intro address haddress
    exact hother address ((Instr.transfer_eq_jump_iff_jump? heffect).mpr haddress)
  rw [hpc]
  cases htransfer : effect.transfer with
  | next =>
    refine .inl ⟨hnone ?_, .inl hnext⟩
    simp [htransfer]
  | skip =>
    refine .inl ⟨hnone ?_, .inr hskip⟩
    simp [htransfer]
  | jump address =>
    refine .inr ⟨address, ?_, rfl⟩
    rw [hjump]
    exact (Instr.transfer_eq_jump_iff_jump? heffect).mp htransfer

/-- So the counter is at most one behind the end of the program, or where the jump leads. -/
theorem pc_step_le_or_jumps {m : Machine μ} (hsize : m.program.size < maxAddress)
    (h : m.executes = true) :
    m.step.2.pc ≤ m.program.size + 1 ∨
      ∃ address, m.executedJump? = some address ∧ 0 ≤ address ∧
        m.step.2.pc = address.toInt.toNat := by
  have hinside := pc_lt_size_of_executes h
  rcases pc_step_eq_or_jumps hsize h with ⟨_, hpc | hpc⟩ | ⟨address, hjump, hpc⟩
  · left; omega
  · left; omega
  · by_cases hneg : address < 0
    · left
      rw [hpc, follow_jump_of_neg hneg]
      omega
    · right
      have hnonneg : 0 ≤ address := Int64.not_lt.mp hneg
      exact ⟨address, hjump, hnonneg, by rw [hpc, follow_jump_of_nonneg hnonneg]⟩

/-! ## Every state -/

/-- The jump that was executed last. -/
def lastJump? (past : List (Machine μ)) : Option Word :=
  (past.filterMap executedJump?).getLast?

theorem lastJump?_concat_of_none {m : Machine μ} (h : m.executedJump? = none)
    (past : List (Machine μ)) : lastJump? (past ++ [m]) = lastJump? past := by
  simp [lastJump?, h]

theorem lastJump?_concat_of_some {m : Machine μ} {address : Word} (h : m.executedJump? = some address)
    (past : List (Machine μ)) : lastJump? (past ++ [m]) = some address := by
  simp [lastJump?, h]

/-- **The invariant of the counter.** It is at most one behind the end of the program, or the address of
the last jump. -/
theorem ReachesVia.pc_le_or_jumped {m m' : Machine μ} {past : List (Machine μ)}
    (h : ReachesVia m past m') (hsize : m.program.size < maxAddress)
    (hpc : m.pc ≤ m.program.size + 1) :
    m'.pc ≤ m.program.size + 1 ∨
      ∃ address, lastJump? past = some address ∧ 0 ≤ address ∧ m'.pc = address.toInt.toNat := by
  induction h with
  | refl => exact .inl hpc
  | adjust _ _ ih => exact ih
  | @attempt past m' hpast ih =>
    have hprogram := hpast.program_eq.1
    cases hexecutes : m'.executes with
    | false =>
      -- neither the counter nor the last jump has changed
      rw [pc_step_of_not_executes hexecutes,
        lastJump?_concat_of_none (executedJump?_of_not_executes hexecutes)]
      exact ih
    | true =>
      rw [← hprogram] at hsize ⊢
      refine (pc_step_le_or_jumps hsize hexecutes).imp_right ?_
      rintro ⟨address, hjump, hrest⟩
      exact ⟨address, lastJump?_concat_of_some hjump past, hrest⟩

/-! ## The number that a run answers -/

theorem count_of_run {m : Machine μ} {budget : Nat} {r : Run μ} {count : UInt64}
    (h : m.run budget = some r) (hcount : r.result = .ok count) : count = r.machine.steps - m.steps := by
  obtain ⟨k, _, _, hresult, hmachine⟩ := exists_endsAt_of_run h
  rw [hresult] at hcount
  rw [hmachine]
  cases hlast : (m.after k).step.1 with
  | error e => rw [hlast] at hcount; cases hcount
  | ok status => rw [hlast] at hcount; cases hcount; rfl

/-- As long as the step counter does not overflow, a run leaves it no smaller than it was, and the
difference is exact. -/
theorem toNat_count_of_run {m : Machine μ} {budget : Nat} {r : Run μ} (h : m.run budget = some r)
    (hfew : m.steps.toNat + m.executions (attemptsUpTo budget m) < UInt64.size) :
    m.steps ≤ r.machine.steps ∧
      ∀ count, r.result = .ok count →
        count.toNat = r.machine.steps.toNat - m.steps.toNat ∧
        count.toNat = m.executions (attemptsUpTo budget m) := by
  have hsteps : r.machine.steps.toNat = m.steps.toNat + m.executions (attemptsUpTo budget m) := by
    rw [machine_of_run h, toNat_steps_after hfew]
  have hle : m.steps ≤ r.machine.steps := by
    rw [UInt64.le_iff_toNat_le]
    omega
  refine ⟨hle, fun count hcount => ?_⟩
  rw [count_of_run h hcount, UInt64.toNat_sub_of_le _ _ hle]
  omega

/-! ## All arithmetic -/

/-- **The arithmetic is exact.** Let a machine be used from its start on, on whatever medium and with whatever
calls, and then make any number of attempts more, as it does in the middle of a run. Its counter is at most
one behind the end of the program, or the address that the last executed jump led to, which is a word that
is not negative. Where there is an instruction, the addresses of the next one and of that behind it are plain
sums, and to these or to the address of its own that a jump has the instruction leads. A jump to a word that
is not negative leads to just that address, and one to a negative word to the end of the program. As long as
fewer than `2 ^ 64` instructions are executed, the step counter is their number, so it grows by one with each
of them and never wraps around; and at the end of a run it is not below what it was at the start, so that
their difference is the number of instructions executed by the run. -/
theorem engine_arithmetic_is_exact {p : Program} (hsize : p.size < 2 ^ 63) {medium : μ} {budget : Nat}
    {calls : List (Call μ)} {answers : List Answer} {m : Machine μ}
    (h : (Machine.start p medium).performAll budget calls = some (answers, m)) (n : Nat) :
    let past := (Machine.start p medium).history budget calls ++ m.trail n
    let now := m.after n
    (now.pc ≤ p.size + 1 ∨
      ∃ address, lastJump? past = some address ∧ 0 ≤ address ∧ now.pc = address.toInt.toNat ∧
        now.pc < 2 ^ 63) ∧
    (∀ i, now.fetch? = some i →
      now.pc + 2 ≤ maxAddress ∧ advance now.pc 1 = now.pc + 1 ∧ advance now.pc 2 = now.pc + 2) ∧
    (now.executes = true →
      (now.executedJump? = none ∧ (now.step.2.pc = now.pc + 1 ∨ now.step.2.pc = now.pc + 2)) ∨
        ∃ address, now.executedJump? = some address ∧ now.step.2.pc = now.follow (.jump address)) ∧
    (∀ address, (0 ≤ address → (now.follow (.jump address) : Int) = address.toInt) ∧
      (address < 0 → now.follow (.jump address) = p.size)) ∧
    (past.countP executes < UInt64.size → now.steps.toNat = past.countP executes) ∧
    (past.countP executes + (if now.executes then 1 else 0) < UInt64.size →
      now.step.2.steps.toNat = now.steps.toNat + if now.executes then 1 else 0) ∧
    ∀ budget' r, now.run budget' = some r →
      past.countP executes + now.executions (attemptsUpTo budget' now) < UInt64.size →
      now.steps ≤ r.machine.steps ∧
        ∀ count, r.result = .ok count →
          count.toNat = r.machine.steps.toNat - now.steps.toNat ∧
          count.toNat = now.executions (attemptsUpTo budget' now) := by
  intro past now
  have hreaches : ReachesVia (Machine.start p medium) past now :=
    (reachesVia_performAll h).trans (reachesVia_after m n)
  have hprogram : now.program = p := hreaches.program_eq.1
  have hmax : p.size + 1 < maxAddress := by
    show p.size + 1 < 2 ^ 64 - 1
    omega
  have hsteps (hfew : past.countP executes < UInt64.size) :
      now.steps.toNat = past.countP executes := hreaches.toNat_steps hfew
  refine ⟨?_, fun i hfetch => ?_, ?_, fun address => ⟨fun hnonneg => ?_, fun hneg => ?_⟩, hsteps,
    fun hfew => ?_, fun budget' r hrun hfew => ?_⟩
  · refine (hreaches.pc_le_or_jumped (Nat.lt_of_succ_lt hmax) (Nat.zero_le _)).imp_right ?_
    rintro ⟨address, hlast, hnonneg, hpc⟩
    exact ⟨address, hlast, hnonneg, hpc, hpc ▸ toNat_toInt_lt address⟩
  · have hinside : now.pc < p.size := hprogram ▸ (Array.getElem?_eq_some_iff.mp hfetch).1
    refine ⟨by omega, advance_of_fetch? ?_ hfetch⟩
    rw [hprogram]
    omega
  · apply pc_step_eq_or_jumps
    rw [hprogram]
    omega
  · rw [follow_jump_of_nonneg hnonneg, natCast_toNat_of_nonneg hnonneg]
  · rw [follow_jump_of_neg hneg, hprogram]
  · have hnext := (ReachesVia.attempt hreaches).toNat_steps
    rw [List.countP_append, List.countP_singleton] at hnext
    rw [hnext hfew, hsteps (by omega)]
  · rw [← hsteps (by omega)] at hfew
    exact toNat_count_of_run hrun hfew

/-- The sink fails once before the jump, which leads far outside of the program. The run after that executes
the jump alone. -/
theorem engine_arithmetic_is_exact_outside :
    let p : Program := #[.printNumber (.literal 7), .goto (.literal 200)]
    let b : Bounded := { limit := some 0 }
    let calls : List (Call Bounded) := [.run, .adjust fun b => { b with limit := none }, .step]
    let start := Machine.start p b
    p.size < 2 ^ 63 ∧ ∃ m r,
      start.performAll 9 calls = some ([.failed (.output "closed"), .silent, .status .running], m) ∧
      m.run 9 = some r ∧ m.steps ≤ r.machine.steps ∧ r.result = .ok 1 ∧
      m.steps.toNat = 1 ∧ m.step.2.steps.toNat = m.steps.toNat + 1 ∧ (m.after 1).pc = 200 ∧
      ∃ address, lastJump? (start.history 9 calls ++ m.trail 1) = some address ∧ 0 ≤ address ∧
        address.toInt.toNat = 200 := by
  intro p b calls start
  have hsize : p.size < 2 ^ 63 := by decide
  obtain ⟨⟨answers, m⟩, h⟩ : ∃ result, start.performAll 9 calls = some result :=
    Option.isSome_iff_exists.mp (by decide +kernel)
  have hseen : (start.performAll 9 calls).map (fun result =>
      (result.1, (result.2.run 9).map (Answer.ofRun ·.result), (result.2.after 1).pc)) =
        some ([.failed (.output "closed"), .silent, .status .running], some (.executed 1), 200) := by
    decide +kernel
  have hcounts : (start.performAll 9 calls).map (fun result =>
      ((start.history 9 calls ++ result.2.trail 0).countP executes, result.2.executes,
        result.2.executions (attemptsUpTo 9 result.2))) = some (1, true, 1) := by
    decide +kernel
  simp only [h, Option.map_some, Option.some.injEq, Prod.mk.injEq] at hseen hcounts
  obtain ⟨rfl, hrun, hpc⟩ := hseen
  obtain ⟨hpast, hexecutes, hexecutions⟩ := hcounts
  obtain ⟨r, hr, hanswer⟩ := Option.map_eq_some_iff.mp hrun
  have hresult : r.result = .ok 1 := by
    cases hcase : r.result with
    | error e => rw [hcase] at hanswer; cases hanswer
    | ok count => rw [hcase] at hanswer; cases hanswer; rfl
  obtain ⟨_, _, _, _, hsteps, hnext, hlater⟩ := engine_arithmetic_is_exact hsize h 0
  have hnow : m.after 0 = m := rfl
  rw [hnow] at hsteps hnext hlater
  rw [hpast] at hsteps hnext hlater
  rw [hexecutes, if_pos rfl] at hnext
  obtain ⟨hle, _⟩ := hlater 9 r hr (by rw [hexecutions]; decide)
  obtain ⟨hplace, _⟩ := engine_arithmetic_is_exact hsize h 1
  obtain ⟨address, hlast, hnonneg, haddress, _⟩ := hplace.resolve_left (by rw [hpc]; decide)
  exact ⟨hsize, m, r, h, hr, hle, hresult, hsteps (by decide), hnext (by decide), hpc, address, hlast,
    hnonneg, haddress.symm.trans hpc⟩

end Machine

end RegisterMachine
