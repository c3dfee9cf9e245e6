import RegisterMachine.Proofs.Effect
import RegisterMachine.Proofs.Machine.Sessions

/-!
# Machines that answer alike

Machines in a relation that attempts keep, and on which attempts answer the same, cannot be told apart by any
calls. To find such a relation it is enough to look at single instructions: those of one program have to do
to its registers what those of another do to theirs.

* **`Bisimulation`** — what a relation of machines has to keep.
* **`Bisimulation.after`**, **`Bisimulation.executions_eq`** — attempts in a row, by induction on their
  number.
* **`Bisimulation.run_rel`** — runs.
* **`Bisimulation.performAll_rel`**, **`Bisimulation.executedBy_eq`** — sessions, one call after the other.
* **`SameEffect`**, **`Program.SameEffects`** — instructions that do the same, up to a relation of register
  files.
* **`Translated`**, **`bisimulation_translated`** — machines with such programs.
-/

namespace RegisterMachine

/-- Both instructions fail alike, or do the same to everything but the registers, and leave those in the
relation. -/
inductive SameEffect (P : RegisterFile → RegisterFile → Prop) :
    Except Word Effect → Except Word Effect → Prop where
  | error (value : Word) : SameEffect P (.error value) (.error value)
  | ok {effect : Effect} {registers' : RegisterFile} (h : P effect.registers registers') :
      SameEffect P (.ok effect) (.ok { effect with registers := registers' })

/-- Each instruction of the program does the same as its translation. -/
def Program.SameEffects (p : Program) (f : Instr → Instr) (P : RegisterFile → RegisterFile → Prop) :
    Prop :=
  ∀ i ∈ p, ∀ r r', P r r' → SameEffect P (i.effect r) ((f i).effect r')

namespace Machine

variable {μ : Type}

section Bisimulation

variable [Medium μ]

/-- Related machines are halted together, and attempts on them answer the same. Attempts and changes of the
medium keep them related. -/
structure Bisimulation (R : Machine μ → Machine μ → Prop) : Prop where
  isHalted_eq {m m' : Machine μ} (h : R m m') : m'.isHalted = m.isHalted
  answer_eq {m m' : Machine μ} (h : R m m') : m'.step.1 = m.step.1
  step {m m' : Machine μ} (h : R m m') : R m.step.2 m'.step.2
  adjust {m m' : Machine μ} (h : R m m') (change : μ → μ) :
    R { m with sink := m.sink.adjust change } { m' with sink := m'.sink.adjust change }

/-- The same answer is given, and the machines are related. -/
def Agree {α : Type} (R : Machine μ → Machine μ → Prop) (x x' : α × Machine μ) : Prop :=
  x'.1 = x.1 ∧ R x.2 x'.2

variable {R : Machine μ → Machine μ → Prop} {m m' : Machine μ}

/-! ## Attempts in a row -/

theorem Bisimulation.executes_eq (hR : Bisimulation R) (h : R m m') : m'.executes = m.executes := by
  unfold executes
  rw [hR.isHalted_eq h, hR.answer_eq h]

theorem Bisimulation.after (hR : Bisimulation R) (h : R m m') (n : Nat) : R (m.after n) (m'.after n) := by
  induction n with
  | zero => exact h
  | succ n ih => exact hR.step ih

theorem Bisimulation.executions_eq (hR : Bisimulation R) (h : R m m') (n : Nat) :
    m'.executions n = m.executions n := by
  induction n with
  | zero => rfl
  | succ n ih =>
    rw [executions_succ, executions_succ, ih, hR.executes_eq (hR.after h n)]

theorem Bisimulation.endsAt_iff (hR : Bisimulation R) (h : R m m') (k : Nat) :
    m'.EndsAt k ↔ m.EndsAt k :=
  ⟨(·.congr fun n => (hR.answer_eq (hR.after h n)).symm),
    (·.congr fun n => hR.answer_eq (hR.after h n))⟩

theorem Bisimulation.attemptsUpTo_eq (hR : Bisimulation R) (h : R m m') (count : Nat) :
    m'.attemptsUpTo count = m.attemptsUpTo count := by
  induction count generalizing m m' with
  | zero => rfl
  | succ count ih => rw [attemptsUpTo, attemptsUpTo, hR.answer_eq h, ih (hR.step h)]

theorem Bisimulation.attempts_eq (hR : Bisimulation R) (h : R m m') (budget : Nat) (call : Call μ) :
    call.attempts budget m' = call.attempts budget m := by
  cases call with
  | step => rfl
  | steps count => exact hR.attemptsUpTo_eq h count
  | run => exact hR.attemptsUpTo_eq h budget
  | adjust _ => rfl

/-! ## Calls -/

theorem Bisimulation.stepsUpTo_agree (hR : Bisimulation R) (h : R m m') (last : Answer)
    (count : Nat) : Agree R (m.stepsUpTo last count) (m'.stepsUpTo last count) := by
  induction count generalizing m m' last with
  | zero => exact ⟨rfl, h⟩
  | succ count ih =>
    have hanswer := hR.answer_eq h
    by_cases hrunning : m.step.1 = .ok .running
    · rw [stepsUpTo_of_running hrunning, stepsUpTo_of_running (hanswer.trans hrunning)]
      exact ih (hR.step h) _
    · rw [stepsUpTo_of_ended hrunning, stepsUpTo_of_ended (hanswer ▸ hrunning), hanswer]
      exact ⟨rfl, hR.step h⟩

/-- A run ends on both machines or on neither, with the same result. -/
theorem Bisimulation.run_rel (hR : Bisimulation R) (h : R m m') (budget : Nat) :
    Option.Rel (fun r r' => r'.result = r.result ∧ R r.machine r'.machine)
      (m.run budget) (m'.run budget) := by
  cases hrun : m.run budget with
  | none =>
    cases hrun' : m'.run budget with
    | none => exact .none
    | some r' =>
      obtain ⟨k, hk, hends, _, _⟩ := exists_endsAt_of_run hrun'
      obtain ⟨r, hr, _, _⟩ := run_of_endsAt ((hR.endsAt_iff h k).mp hends) hk
      rw [hrun] at hr
      cases hr
  | some r =>
    obtain ⟨k, hk, hends, hresult, hmachine⟩ := exists_endsAt_of_run hrun
    obtain ⟨r', hrun', hresult', hmachine'⟩ := run_of_endsAt ((hR.endsAt_iff h k).mpr hends) hk
    rw [hrun']
    refine .some ⟨?_, ?_⟩
    · -- the counters need not be the same, but they have moved on alike
      have hcount : (m'.after (k + 1)).steps - m'.steps = (m.after (k + 1)).steps - m.steps := by
        rw [steps_after, steps_after, hR.executions_eq h]
        grind
      rw [hresult, hresult', hR.answer_eq (hR.after h k), hcount]
    · rw [hmachine, hmachine']
      exact hR.after h (k + 1)

theorem Bisimulation.perform_rel (hR : Bisimulation R) (h : R m m') (budget : Nat) (call : Call μ) :
    Option.Rel (Agree R) (m.perform budget call) (m'.perform budget call) := by
  cases call with
  | step => exact .some ⟨congrArg Answer.ofStep (hR.answer_eq h), hR.step h⟩
  | steps count => exact .some (hR.stepsUpTo_agree h .silent count)
  | run =>
    have hrun := hR.run_rel h budget
    rw [perform, perform]
    generalize m.run budget = x, m'.run budget = x' at hrun
    cases hrun with
    | none => exact .none
    | some hr => exact .some ⟨congrArg Answer.ofRun hr.1, hr.2⟩
  | adjust change => exact .some ⟨rfl, hR.adjust h change⟩

/-- **Sessions on related machines**: they end on both or on neither, and answer the same. -/
theorem Bisimulation.performAll_rel (hR : Bisimulation R) (h : R m m') (budget : Nat)
    (calls : List (Call μ)) :
    Option.Rel (Agree R) (m.performAll budget calls) (m'.performAll budget calls) := by
  -- one call at a time, for machines that are related in whatever state the call finds them
  induction calls generalizing m m' with
  | nil => exact .some ⟨rfl, h⟩
  | cons call calls ih =>
    have hcall := hR.perform_rel h budget call
    rw [performAll, performAll]
    generalize m.perform budget call = x, m'.perform budget call = x' at hcall
    cases hcall with
    | none => exact .none
    | @some x x' hx =>
      obtain ⟨answer, next⟩ := x
      obtain ⟨answer', next'⟩ := x'
      obtain rfl : answer' = answer := hx.1
      have hrest := ih hx.2
      show Option.Rel _ ((next.performAll budget calls).map _) ((next'.performAll budget calls).map _)
      generalize next.performAll budget calls = y, next'.performAll budget calls = y' at hrest
      cases hrest with
      | none => exact .none
      | some hy => exact .some ⟨congrArg (answer' :: ·) hy.1, hy.2⟩

theorem Bisimulation.executedBy_eq (hR : Bisimulation R) (h : R m m') (budget : Nat)
    (calls : List (Call μ)) : m'.executedBy budget calls = m.executedBy budget calls := by
  induction calls generalizing m m' with
  | nil => rfl
  | cons call calls ih =>
    have hcall := hR.perform_rel h budget call
    rw [executedBy, executedBy, hR.attempts_eq h, hR.executions_eq h]
    generalize m.perform budget call = x, m'.perform budget call = x' at hcall
    cases hcall with
    | none => rfl
    | some hx => rw [Option.elim_some, Option.elim_some, ih hx.2]

end Bisimulation

/-! ## Programs that are translated instruction by instruction -/

section Translated

variable {p : Program} {f : Instr → Instr} {P : RegisterFile → RegisterFile → Prop} {lead : UInt64}
  {m m' : Machine μ}

/-- The second machine is at the same place of the translated program, on a sink in the same state. Its
registers are related to those of the first, and it may have executed more instructions. -/
structure Translated (p : Program) (f : Instr → Instr) (P : RegisterFile → RegisterFile → Prop)
    (lead : UInt64) (m m' : Machine μ) : Prop where
  program : m.program = p
  translation : m'.program = p.map f
  pc : m'.pc = m.pc
  sink : m'.sink = m.sink
  registers : P m.registers m'.registers
  steps : m'.steps = m.steps + lead

theorem Translated.size_eq (h : Translated p f P lead m m') : m'.program.size = m.program.size := by
  rw [h.translation, h.program, Array.size_map]

theorem Translated.isHalted_eq (h : Translated p f P lead m m') : m'.isHalted = m.isHalted := by
  rw [isHalted, isHalted, h.size_eq, h.pc]

theorem Translated.fetch?_eq (h : Translated p f P lead m m') : m'.fetch? = m.fetch?.map f := by
  rw [fetch?, fetch?, h.translation, h.program, h.pc, Array.getElem?_map]

theorem Translated.commit {effect : Effect} {registers' : RegisterFile}
    (h : Translated p f P lead m m') (sink : Sink μ) (hregisters : P effect.registers registers') :
    Translated p f P lead (Machine.commit { m with sink } effect)
      (Machine.commit { m' with sink } { effect with registers := registers' }) := by
  refine ⟨h.program, h.translation, ?_, rfl, hregisters, ?_⟩
  · show follow { m' with sink } effect.transfer = follow { m with sink } effect.transfer
    cases effect.transfer <;> simp only [follow, h.size_eq, h.pc]
  · show m'.steps + 1 = m.steps + 1 + lead
    rw [h.steps, UInt64.add_assoc, UInt64.add_assoc, UInt64.add_comm lead]

variable [Medium μ]

/-- What happens to the sink depends on the sink only. -/
theorem send_of_sink_eq {output : Option (List UInt8)} {answer : Except ExecutionError Unit}
    {sink : Sink μ} (hsink : m'.sink = m.sink) (h : m.send output = (answer, { m with sink })) :
    m'.send output = (answer, { m' with sink }) := by
  cases output with
  | none =>
    have hanswer : .ok () = answer := congrArg Prod.fst h
    have hsame : m.sink = sink := congrArg (·.2.sink) h
    rw [← hanswer, ← hsame, ← hsink]
    rfl
  | some data =>
    obtain ⟨result, s, hemit⟩ : ∃ result s, m.sink.emit data = (result, s) := ⟨_, _, rfl⟩
    simp only [send, hsink, hemit] at h ⊢
    cases result with
    | ok _ => cases h; rfl
    | error fault => cases h; rfl

/-- **Attempts on a program and its translation** answer the same, and keep the machines related. -/
theorem Translated.step (heffects : p.SameEffects f P) (h : Translated p f P lead m m') :
    m'.step.1 = m.step.1 ∧ Translated p f P lead m.step.2 m'.step.2 := by
  -- the instructions at both counters are translations of each other
  have hsame {i : Instr} (hfetch : m.fetch? = some i) :
      m'.fetch? = some (f i) ∧ SameEffect P (i.effect m.registers) ((f i).effect m'.registers) := by
    refine ⟨by rw [h.fetch?_eq, hfetch]; rfl, heffects i ?_ _ _ h.registers⟩
    rw [← h.program]
    exact Array.mem_of_getElem? hfetch
  cases m.attempt with
  | halted hfetch _ hstep =>
    have hfetch' : m'.fetch? = none := by rw [h.fetch?_eq, hfetch]; rfl
    rw [hstep, step_of_fetch?_none hfetch']
    exact ⟨rfl, h⟩
  | @invalid i value hfetch hvalue _ hstep =>
    obtain ⟨hfetch', hi⟩ := hsame hfetch
    rw [hvalue] at hi
    generalize hvalue' : (f i).effect m'.registers = x' at hi
    cases hi
    rw [hstep, step_of_effect_error hfetch' hvalue', h.pc]
    exact ⟨rfl, h⟩
  | @blocked i effect data fault sink hfetch hok houtput hemit _ hstep =>
    obtain ⟨hfetch', hi⟩ := hsame hfetch
    rw [hok] at hi
    generalize hok' : (f i).effect m'.registers = x' at hi
    cases hi
    have hsend : m'.send effect.output = (.error (.output fault), { m' with sink }) := by
      rw [houtput, send, h.sink, hemit]
    rw [hstep, step_of_send_error hfetch' hok' hsend]
    exact ⟨rfl, h.program, h.translation, h.pc, rfl, h.registers, h.steps⟩
  | @executed i _ sink hfetch hok hsend _ hstep =>
    obtain ⟨hfetch', hi⟩ := hsame hfetch
    rw [hok] at hi
    generalize hok' : (f i).effect m'.registers = x' at hi
    cases hi with
    | ok hregisters =>
      have hcommit := h.commit sink hregisters
      rw [hstep, step_of_send_ok hfetch' hok' (send_of_sink_eq h.sink hsend)]
      refine ⟨congrArg Except.ok ?_, hcommit⟩
      rw [status, status, hcommit.isHalted_eq]

/-- **A program and its translation answer alike** if each instruction does the same as its translation. -/
theorem bisimulation_translated (heffects : p.SameEffects f P) :
    Bisimulation fun m m' : Machine μ => Translated p f P lead m m' where
  isHalted_eq h := h.isHalted_eq
  answer_eq h := (h.step heffects).1
  step h := (h.step heffects).2
  adjust h change :=
    ⟨h.program, h.translation, h.pc, congrArg (·.adjust change) h.sink, h.registers, h.steps⟩

end Translated

end Machine

end RegisterMachine
