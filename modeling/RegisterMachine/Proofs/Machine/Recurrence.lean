import RegisterMachine.Proofs.Machine.HiddenRegisters
import RegisterMachine.Proofs.Machine.Iteration
import RegisterMachine.Proofs.Machine.LimitedCapacity

/-!
# Recurring states

A machine that comes back to a place, with the same in the registers that operands can name, does the
same again, and so for ever. The state as a whole need not come back: the other registers and the written
ones may change each time, and the output grows. What comes back is enough to tell what happens next.

* **`Resembles`** — two machines at the same place that hold the same where operands read.
* **`Resembles.after`** — they do the same. One of them is put on the sink of the other first, which no
  program can tell, and then the hidden registers can differ, which no program can tell either.
* **`running_of_recurrence`** — all attempts leave the machine running: those before the recurrence do, and
  each later one resembles an earlier one.
* **`stored_of_recurrence`** — each round prints the same.
* **`recurring_state_never_ends`** — all of it.
-/

namespace RegisterMachine.Machine

open Medium

variable {μ : Type}

/-! ## Machines that resemble each other -/

/-- Both machines are at the same place of the same program, and the registers that operands can name hold
the same. -/
structure Resembles (m m' : Machine μ) : Prop where
  program : m'.program = m.program
  pc : m'.pc = m.pc
  registers : ∀ b : UInt8, m'.registers.get (.ofByte b) = m.registers.get (.ofByte b)

theorem Resembles.refl (m : Machine μ) : Resembles m m :=
  ⟨rfl, rfl, fun _ => rfl⟩

theorem Resembles.trans {m m' m'' : Machine μ} (h : Resembles m m') (h' : Resembles m' m'') :
    Resembles m m'' :=
  ⟨h'.program.trans h.program, h'.pc.trans h.pc, fun b => (h'.registers b).trans (h.registers b)⟩

/-- On the same sink, the machines differ in hidden registers only, and in the number of instructions that
they have executed. -/
theorem Resembles.apart {m m' : Machine μ} (h : Resembles m m') :
    ∃ offset lead, Hidden offset ∧ Apart offset lead m { m' with sink := m.sink } := by
  refine ⟨fun id => m'.registers.get id - m.registers.get id, m'.steps - m.steps, fun b => ?_,
    h.program, h.pc, rfl, fun id => ?_, ?_⟩
  · show m'.registers.get _ - m.registers.get _ = 0
    rw [h.registers, Int64.sub_self]
  · show m'.registers.get id = m.registers.get id + (m'.registers.get id - m.registers.get id)
    grind
  · show m'.steps = m.steps + (m'.steps - m.steps)
    grind

variable [Medium μ]

/-- **Machines that resemble each other do the same** on media that never fail: they answer the same and
print the same, and they resemble each other again. -/
theorem Resembles.after {m m' : Machine μ} (h : Resembles m m') (hm : NeverFails m.sink.medium)
    (hm' : NeverFails m'.sink.medium) (k : Nat) :
    Resembles (m.after k) (m'.after k) ∧ (m'.after k).step.1 = (m.after k).step.1 ∧
      ∃ output : List UInt8, (m.after k).sink.stored = m.sink.stored ++ output ∧
        (m'.after k).sink.stored = m'.sink.stored ++ output := by
  obtain ⟨offset, lead, hidden, hapart⟩ := h.apart
  have htwins : Twins { m' with sink := m.sink } m' := ⟨rfl, hm, hm'⟩
  have hk := hapart.after hidden k
  obtain ⟨hlast, output, hstored, hstored'⟩ := htwins.after k
  obtain ⟨_, hregisters, hpc, _⟩ := core_eq_iff.mp hlast.core
  refine ⟨⟨?_, ?_, fun b => ?_⟩, ?_, output, ?_, hstored'⟩
  · rw [program_after, program_after, h.program]
  · rw [← hpc, hk.pc]
  · rw [← hregisters, hk.registers, hidden, Int64.add_zero]
  · rw [← htwins.answer_eq k, hapart.answer_eq hidden k]
  · rw [← hk.sink, hstored]

theorem Resembles.stored_after {m m' : Machine μ} (h : Resembles m m') (hm : NeverFails m.sink.medium)
    (hm' : NeverFails m'.sink.medium) {k : Nat} {text : List UInt8}
    (htext : (m.after k).sink.stored = m.sink.stored ++ text) :
    (m'.after k).sink.stored = m'.sink.stored ++ text := by
  obtain ⟨_, _, output, hstored, hstored'⟩ := h.after hm hm' k
  have hsame := congrArg Array.toList (hstored.symm.trans htext)
  rw [Array.toList_appendList, Array.toList_appendList] at hsame
  rw [hstored', List.append_cancel_left hsame]

/-! ## Going round -/

section Recurrence

variable {s : Machine μ} {m n : Nat}

/-- **All attempts leave the machine running.** Induction on their number: an attempt behind the recurrence
resembles one that lies as far behind the first occurrence, and that is an earlier one. -/
theorem running_of_recurrence (h : Resembles (s.after m) (s.after n))
    (hs : NeverFails s.sink.medium) (hmn : m < n) (hexecuted : s.executions n = n)
    (hinside : (s.after m).isHalted = false) (k : Nat) : (s.after k).step.1 = .ok .running := by
  have hsucceeds : s.Succeeds n := by
    intro j hj
    have hexecutes := executions_eq_iff.mp hexecuted j hj
    rw [executes, Bool.and_eq_true] at hexecutes
    exact hexecutes.2
  have hinside' : (s.after n).isHalted = false := by
    rw [isHalted, h.program, h.pc]
    exact hinside
  induction k using Nat.strongRecOn with
  | ind k ih =>
    by_cases hk : k < n
    · exact hsucceeds.running hinside' hk
    · obtain ⟨i, rfl⟩ := Nat.exists_eq_add_of_le (Nat.le_of_not_lt hk)
      obtain ⟨_, hanswer, _⟩ := h.after (neverFails_after hs m) (neverFails_after hs n) i
      rw [after_add, after_add] at hanswer
      rw [hanswer]
      exact ih (m + i) (by omega)

/-- The machine resembles itself a round later, however many rounds have passed. -/
theorem resembles_of_recurrence {d : Nat} (h : Resembles s (s.after d)) (hs : NeverFails s.sink.medium)
    (j : Nat) : Resembles s (s.after (j * d)) := by
  induction j with
  | zero =>
    rw [Nat.zero_mul]
    exact .refl s
  | succ j ih =>
    have hround := (ih.after hs (neverFails_after hs _) d).1
    rw [after_add, ← Nat.succ_mul] at hround
    exact h.trans hround

/-- **Each round prints the same.** -/
theorem stored_of_recurrence {d : Nat} {text : List UInt8} (h : Resembles s (s.after d))
    (hs : NeverFails s.sink.medium) (htext : (s.after d).sink.stored = s.sink.stored ++ text)
    (j : Nat) :
    (s.after (j * d)).sink.stored = s.sink.stored ++ (List.replicate j text).flatten := by
  induction j with
  | zero =>
    rw [Nat.zero_mul]
    exact Array.appendList_nil.symm
  | succ j ih =>
    have hround := (resembles_of_recurrence h hs j).stored_after hs (neverFails_after hs _) htext
    rw [after_add, ← Nat.succ_mul] at hround
    rw [hround, ih, Sink.stored_append, List.replicate_succ', List.flatten_append,
      List.flatten_singleton]

end Recurrence

/-- **A recurring state means an endless run.** On a medium that never fails, let a machine after `m` and
after `n` executed instructions, `m < n`, be at the same place inside its program, with the same in the
registers 0 to 255. From the first of the two on, every attempt executes an instruction and leaves the
machine running, and the counter is the same again `n - m` instructions later. What is printed from the
first to the second is printed again in every round. So a run never ends, and no instruction fails. -/
theorem recurring_state_never_ends {s : Machine μ} (hs : NeverFails s.sink.medium) {m n : Nat}
    (hmn : m < n) (hexecuted : s.executions n = n) (hpc : (s.after n).pc = (s.after m).pc)
    (hinside : (s.after m).isHalted = false)
    (hlow : ∀ id : Word, 0 ≤ id → id ≤ 255 →
      (s.after n).registers.get id = (s.after m).registers.get id) :
    (∀ k, s.executions (m + k) = m + k ∧ (s.after (m + k)).isHalted = false ∧
        (s.after (m + k)).step.1 = .ok .running ∧
        (s.after (m + k + (n - m))).pc = (s.after (m + k)).pc) ∧
      (∃ text : List UInt8, (s.after n).sink.stored = (s.after m).sink.stored ++ text ∧
        ∀ j, (s.after (m + j * (n - m))).sink.stored =
          (s.after m).sink.stored ++ (List.replicate j text).flatten) ∧
      ∀ budget, s.run budget = none := by
  have hm := neverFails_after hs m
  have hn := neverFails_after hs n
  have hresembles : Resembles (s.after m) (s.after n) := by
    refine ⟨by rw [program_after, program_after], hpc, fun b => ?_⟩
    obtain ⟨hnonneg, hle⟩ := Word.ofByte_bounds b
    exact hlow _ hnonneg hle
  have hrunning := running_of_recurrence hresembles hs hmn hexecuted hinside
  refine ⟨fun k => ⟨executions_of_running fun j _ => hrunning j, ?_, hrunning (m + k), ?_⟩, ?_,
    forall_run_eq_none_iff.mpr hrunning⟩
  · exact isHalted_of_executes (executes_of_running (hrunning (m + k)))
  · have hlater := (hresembles.after hm hn k).1.pc
    rw [after_add, after_add] at hlater
    rw [show m + k + (n - m) = n + k by omega, hlater]
  · have hround : (s.after m).after (n - m) = s.after n := by
      rw [after_add, Nat.add_sub_cancel' (Nat.le_of_lt hmn)]
    rw [← hround] at hresembles
    obtain ⟨_, _, text, htext, _⟩ := (Resembles.refl (s.after m)).after hm hm (n - m)
    refine ⟨text, by rw [← hround, htext], fun j => ?_⟩
    rw [← after_add]
    exact stored_of_recurrence hresembles hm htext j

/-- A loop adds to register 300 in each round and prints a number. The register file is not the same again,
but no operand can name that register. -/
theorem recurring_state_never_ends_hidden :
    let p : Program := #[.inc (.literal 0) (.literal 255), .inc (.literal 0) (.literal 45),
      .inc (.register 0) (.literal 1), .printNumber (.literal 7), .goto (.literal 2)]
    let s := Machine.start p Unlimited.mk
    NeverFails s.sink.medium ∧ s.executions 5 = 5 ∧ (s.after 5).pc = (s.after 2).pc ∧
      (s.after 2).isHalted = false ∧
      (∀ id : Word, 0 ≤ id → id ≤ 255 →
        (s.after 5).registers.get id = (s.after 2).registers.get id) ∧
      (s.after 5).registers ≠ (s.after 2).registers ∧
      (s.after (2 + 100 * 3)).sink.stored.toList = (List.replicate 100 [0x37]).flatten ∧
      ∀ budget, s.run budget = none := by
  intro p s
  have hs : NeverFails s.sink.medium := neverFails_unlimited _
  have hexecuted : s.executions 5 = 5 := by decide +kernel
  have hpc : (s.after 5).pc = (s.after 2).pc := by decide +kernel
  have hinside : (s.after 2).isHalted = false := by decide +kernel
  have hwrites : (s.after 5).registers = (s.after 2).registers.set 300 1 := by decide +kernel
  have hlow : ∀ id : Word, 0 ≤ id → id ≤ 255 →
      (s.after 5).registers.get id = (s.after 2).registers.get id := by
    intro id _ hle
    have hne : (300 : Word) ≠ id := by
      rintro rfl
      exact absurd hle (by decide)
    rw [hwrites, RegisterFile.get_set, if_neg hne]
  obtain ⟨_, ⟨text, htext, hrounds⟩, hendless⟩ :=
    recurring_state_never_ends hs (by decide) hexecuted hpc hinside hlow
  have hfirst : (s.after 2).sink.stored = #[] := by decide +kernel
  have hsecond : (s.after 5).sink.stored = #[0x37] := by decide +kernel
  have hprinted : text = [0x37] := by
    have hbytes := congrArg Array.toList htext
    rw [hfirst, hsecond, Array.toList_appendList] at hbytes
    exact hbytes.symm
  refine ⟨hs, hexecuted, hpc, hinside, hlow, by decide +kernel, ?_, hendless⟩
  rw [hrounds 100, hfirst, hprinted, Array.toList_appendList]
  rfl

end RegisterMachine.Machine
