import RegisterMachine.Proofs.Effect
import RegisterMachine.Proofs.Machine.Sessions

/-!
# Concatenated programs

A program that is followed by another does what it does alone, as long as the counter stays inside it. What
happens then depends on how the counter leaves it. A jump to a negative address leaves the whole. Every
other way out leads into the second program, and from there on the whole does what the second program
does alone, at places further back by the length of the first. The second program must not jump, since
the addresses in it are not moved.

## The architecture

* **`Alike`**, **`Lockstep`** — machines that agree in everything but their counters, and machines whose
  counters are a fixed number of addresses apart.
* **`Alike.attempt`** — attempts of the same instruction, on media that never fail. The instruction is
  not taken apart; all that is left to compare is where it goes on.
* **`Lockstep.step_front`**, **`Lockstep.after_front`** — inside the first program.
* **`Lockstep.halts_of_jumpsOut`**, **`Lockstep.of_haltsAfter`** — the ways out of it.
* **`Lockstep.step_back`**, **`Lockstep.after_back`** — inside the second program and behind it.
* **`programs_compose_in_sequence`** — one program after the other, for each way out of the first.
-/

namespace RegisterMachine

/-- The same error at a place that lies `n` addresses further on. -/
def ExecutionError.shift (n : Nat) : ExecutionError → ExecutionError
  | output fault => output fault
  | invalidCodePoint value pc => invalidCodePoint value (n + pc)

namespace Machine

open Medium

/-! ## Two machines side by side -/

section

variable {μ ν : Type}

/-- Both machines have the same registers. The second has executed `lead` instructions more than the first,
and `front` was stored on its sink before. -/
structure Alike (lead : UInt64) (front : List UInt8) (m : Machine μ) (m' : Machine ν) : Prop where
  registers : m'.registers = m.registers
  steps : m'.steps = lead + m.steps
  output : m'.sink.stored.toList = front ++ m.sink.stored.toList

/-- Both machines are alike, and the second is `offset` addresses further on. -/
structure Lockstep (offset : Nat) (lead : UInt64) (front : List UInt8) (m : Machine μ) (m' : Machine ν) :
    Prop extends Alike lead front m m' where
  pc : m'.pc = offset + m.pc

/-- The next instruction is a jump to a negative address. -/
def JumpsOut (m : Machine μ) : Prop :=
  ∃ target, m.fetch? = some (.goto target) ∧ m.registers.resolve target < 0

end

variable {μ ν : Type} [Medium μ] [Medium ν]

/-- The machine is halted after `n` attempts, and was running before. -/
structure HaltsAfter (m : Machine μ) (n : Nat) : Prop where
  halted : (m.after n).isHalted = true
  running : ∀ j < n, (m.after j).isHalted = false

/-- The ways that attempts of one instruction go on machines that are alike, if their media never fail. -/
inductive AlikeAttempt (lead : UInt64) (front : List UInt8) (i : Instr) (m : Machine μ)
    (m' : Machine ν) : Prop where
  | invalid {value : Word} (hstep : m.step = (.error (.invalidCodePoint value m.pc), m))
      (hstep' : m'.step = (.error (.invalidCodePoint value m'.pc), m'))
  | executed {effect : Effect} (heffect : i.effect m.registers = .ok effect)
      (halike : Alike lead front m.step.2 m'.step.2)
      (hanswer : m.step.1 = .ok m.step.2.status) (hanswer' : m'.step.1 = .ok m'.step.2.status)
      (hpc : m.step.2.pc = m.follow effect.transfer)
      (hpc' : m'.step.2.pc = m'.follow effect.transfer)

theorem Alike.attempt {lead : UInt64} {front : List UInt8} {i : Instr} {m : Machine μ} {m' : Machine ν}
    (h : Alike lead front m m') (hm : NeverFails m.sink.medium) (hm' : NeverFails m'.sink.medium)
    (hfetch : m.fetch? = some i) (hfetch' : m'.fetch? = some i) : AlikeAttempt lead front i m m' := by
  cases heffect : i.effect m.registers with
  | error value =>
    have heffect' : i.effect m'.registers = .error value := by rw [h.registers, heffect]
    exact .invalid (step_of_effect_error hfetch heffect) (step_of_effect_error hfetch' heffect')
  | ok effect =>
    have heffect' : i.effect m'.registers = .ok effect := by rw [h.registers, heffect]
    obtain ⟨sink, _, hstored, hstep⟩ := step_of_effect_ok hm hfetch heffect
    obtain ⟨sink', _, hstored', hstep'⟩ := step_of_effect_ok hm' hfetch' heffect'
    have halike : Alike lead front m.step.2 m'.step.2 := by
      rw [hstep, hstep']
      refine ⟨rfl, ?_, ?_⟩
      · show m'.steps + 1 = lead + (m.steps + 1)
        rw [h.steps, UInt64.add_assoc]
      · show sink'.stored.toList = front ++ sink.stored.toList
        rw [hstored, hstored', Array.toList_appendList, Array.toList_appendList, h.output,
          List.append_assoc]
    refine .executed heffect halike ?_ ?_ ?_ ?_
    · rw [hstep]
    · rw [hstep']
    · rw [hstep]; rfl
    · rw [hstep']; rfl

/-! ## Inside the first program

Both machines have the same instruction in front of them. It goes on at the same place in both, but for a
jump to a negative address, which leads to the end of the program, and the programs differ in length. -/

section Front

variable {q : Program} {lead : UInt64} {front : List UInt8} {m : Machine μ} {m' : Machine ν}

theorem program_after_front (hprogram : m'.program = m.program ++ q) (n : Nat) :
    (m'.after n).program = (m.after n).program ++ q := by
  rw [program_after, program_after, hprogram]

omit [Medium μ] [Medium ν] in
theorem fetch?_of_front {i : Instr} (hprogram : m'.program = m.program ++ q) (hpc : m'.pc = 0 + m.pc)
    (h : m.fetch? = some i) : m'.fetch? = some i := by
  have hinside : m.pc < m.program.size := (Array.getElem?_eq_some_iff.mp h).1
  rw [Nat.zero_add] at hpc
  show m'.program[m'.pc]? = some i
  rw [hprogram, hpc, Array.getElem?_append_left hinside]
  exact h

/-- A jump to a negative address leaves the program at its end. -/
theorem pc_of_jumpsOut (hm : NeverFails m.sink.medium) (h : m.JumpsOut) :
    m.step.2.pc = m.program.size := by
  obtain ⟨target, hfetch, hnegative⟩ := h
  obtain ⟨sink, _, _, hstep⟩ := step_of_effect_ok hm hfetch rfl
  rw [hstep]
  show (if m.registers.resolve target < 0 then m.program.size else _) = _
  rw [if_pos hnegative]

omit [Medium μ] in
theorem running_of_jumpsOut (h : m.JumpsOut) : m.isHalted = false := by
  obtain ⟨target, hfetch, _⟩ := h
  rw [← Bool.not_eq_true, ← fetch?_eq_none_iff, hfetch]
  nofun

theorem isHalted_of_jumpsOut (hm : NeverFails m.sink.medium) (h : m.JumpsOut) :
    m.step.2.isHalted = true := by
  have hpc := pc_of_jumpsOut hm h
  simp [isHalted, program_step, hpc]

omit [Medium μ] [Medium ν] in
/-- The counters are equal, and the whole is no shorter than the first program. -/
theorem Lockstep.isHalted_front (h : Lockstep 0 lead front m m') (hprogram : m'.program = m.program ++ q)
    (hrunning : m.isHalted = false) : m'.isHalted = false := by
  have hpc := h.pc
  simp only [isHalted, hprogram, Array.size_append, decide_eq_false_iff_not] at hrunning ⊢
  omega

theorem Lockstep.attempt_front {i : Instr} (h : Lockstep 0 lead front m m')
    (hprogram : m'.program = m.program ++ q) (hm : NeverFails m.sink.medium)
    (hm' : NeverFails m'.sink.medium) (hfetch : m.fetch? = some i) :
    AlikeAttempt lead front i m m' :=
  h.toAlike.attempt hm hm' hfetch (fetch?_of_front hprogram h.pc hfetch)

theorem Lockstep.step_front {i : Instr} (h : Lockstep 0 lead front m m')
    (hprogram : m'.program = m.program ++ q) (hm : NeverFails m.sink.medium)
    (hm' : NeverFails m'.sink.medium) (hfetch : m.fetch? = some i) (hstays : ¬ m.JumpsOut) :
    Lockstep 0 lead front m.step.2 m'.step.2 := by
  have hpc : m'.pc = m.pc := by rw [h.pc, Nat.zero_add]
  cases h.attempt_front hprogram hm hm' hfetch with
  | invalid hstep hstep' =>
    rw [hstep, hstep']
    exact h
  | @executed effect heffect halike _ _ hnext hnext' =>
    refine ⟨halike, ?_⟩
    rw [hnext, hnext', Nat.zero_add]
    cases htransfer : effect.transfer with
    | next => simp only [follow, hpc]
    | skip => simp only [follow, hpc]
    | jump address =>
      have hforward : ¬ address < 0 := by
        intro hnegative
        obtain ⟨target, rfl, rfl⟩ := (Instr.transfer_eq_jump_iff heffect).mp htransfer
        exact hstays ⟨target, hfetch, hnegative⟩
      simp only [follow, if_neg hforward]

/-- **Attempts inside the first program.** Induction on their number: none of them finds the machine
halted or jumps to a negative address. -/
theorem Lockstep.after_front (h : Lockstep 0 lead front m m') (hprogram : m'.program = m.program ++ q)
    (hm : NeverFails m.sink.medium) (hm' : NeverFails m'.sink.medium) {n : Nat}
    (hinside : ∀ j < n, (m.after j).isHalted = false ∧ ¬ (m.after j).JumpsOut) :
    Lockstep 0 lead front (m.after n) (m'.after n) := by
  induction n with
  | zero => exact h
  | succ n ih =>
    obtain ⟨hrunning, hstays⟩ := hinside n (Nat.lt_succ_self n)
    obtain ⟨i, hfetch⟩ := exists_fetch?_of_running hrunning
    have hn : Lockstep 0 lead front (m.after n) (m'.after n) := ih fun j hj => hinside j (by omega)
    exact hn.step_front (program_after_front hprogram n) (neverFails_after hm n)
      (neverFails_after hm' n) hfetch hstays

/-- A machine that is running has not jumped to a negative address. -/
theorem inside_of_running (hm : NeverFails m.sink.medium) {n : Nat} (h : (m.after n).isHalted = false) :
    ∀ j < n, (m.after j).isHalted = false ∧ ¬ (m.after j).JumpsOut := by
  intro j hj
  refine ⟨isHalted_of_le h (by omega), fun hout => ?_⟩
  have hhalted : (m.after (j + 1)).isHalted = true :=
    isHalted_of_jumpsOut (neverFails_after hm j) hout
  rw [isHalted_of_le h hj] at hhalted
  cases hhalted

theorem Lockstep.of_running (h : Lockstep 0 lead front m m') (hprogram : m'.program = m.program ++ q)
    (hm : NeverFails m.sink.medium) (hm' : NeverFails m'.sink.medium) {n : Nat}
    (hrunning : (m.after n).isHalted = false) : Lockstep 0 lead front (m.after n) (m'.after n) :=
  h.after_front hprogram hm hm' (inside_of_running hm hrunning)

/-- **Attempts that leave the first program by a jump to a negative address** leave the whole. -/
theorem Lockstep.step_of_jumpsOut (h : Lockstep 0 lead front m m')
    (hprogram : m'.program = m.program ++ q) (hm : NeverFails m.sink.medium)
    (hm' : NeverFails m'.sink.medium) (hout : m.JumpsOut) :
    Alike lead front m.step.2 m'.step.2 ∧ m'.step.2.pc = m'.program.size := by
  have hpc' : m'.step.2.pc = m'.program.size := by
    refine pc_of_jumpsOut hm' ?_
    obtain ⟨target, hfetch, hnegative⟩ := hout
    refine ⟨target, fetch?_of_front hprogram h.pc hfetch, ?_⟩
    rw [h.registers]
    exact hnegative
  obtain ⟨target, hfetch, _⟩ := hout
  cases h.attempt_front hprogram hm hm' hfetch with
  | invalid hstep hstep' =>
    rw [hstep']
    rw [hstep'] at hpc'
    rw [hstep]
    exact ⟨h.toAlike, hpc'⟩
  | executed _ halike _ _ _ _ => exact ⟨halike, hpc'⟩

/-! ### The ways out of the first program -/

/-- **A jump to a negative address halts both**, with the same registers and output. -/
theorem Lockstep.halts_of_jumpsOut (h : Lockstep 0 lead front m m')
    (hprogram : m'.program = m.program ++ q) (hm : NeverFails m.sink.medium)
    (hm' : NeverFails m'.sink.medium) {n : Nat} (hout : (m.after n).JumpsOut) :
    m.HaltsAfter (n + 1) ∧ m'.HaltsAfter (n + 1) ∧
      Alike lead front (m.after (n + 1)) (m'.after (n + 1)) ∧
      (m'.after (n + 1)).pc = m'.program.size := by
  have hrunning : ∀ j < n + 1, (m.after j).isHalted = false :=
    fun j hj => isHalted_of_le (running_of_jumpsOut hout) (by omega)
  have hn : Lockstep 0 lead front (m.after n) (m'.after n) :=
    h.of_running hprogram hm hm' (running_of_jumpsOut hout)
  obtain ⟨halike, hpc⟩ := hn.step_of_jumpsOut (program_after_front hprogram n) (neverFails_after hm n)
    (neverFails_after hm' n) hout
  rw [program_after] at hpc
  have hhalted : (m.after (n + 1)).isHalted = true := isHalted_of_jumpsOut (neverFails_after hm n) hout
  have hhalted' : (m'.after (n + 1)).isHalted = true := by
    rw [isHalted, program_after, decide_eq_true_eq]
    exact Nat.le_of_eq hpc.symm
  have hrunning' : ∀ j < n + 1, (m'.after j).isHalted = false := by
    intro j hj
    have hj' := h.of_running hprogram hm hm' (hrunning j hj)
    exact hj'.isHalted_front (program_after_front hprogram j) (hrunning j hj)
  exact ⟨⟨hhalted, hrunning⟩, ⟨hhalted', hrunning'⟩, halike, hpc⟩

/-- **Every other way out** leads the whole to the same place. -/
theorem Lockstep.of_haltsAfter (h : Lockstep 0 lead front m m')
    (hprogram : m'.program = m.program ++ q) (hm : NeverFails m.sink.medium)
    (hm' : NeverFails m'.sink.medium) {n : Nat} (hhalts : m.HaltsAfter n)
    (hstays : ∀ j < n, ¬ (m.after j).JumpsOut) :
    Lockstep 0 lead front (m.after n) (m'.after n) ∧ m.program.size ≤ (m.after n).pc := by
  constructor
  · exact h.after_front hprogram hm hm' fun j hj => ⟨hhalts.running j hj, hstays j hj⟩
  · have hhalted := hhalts.halted
    rw [isHalted, program_after, decide_eq_true_eq] at hhalted
    exact hhalted

/-! ### Answers inside the first program -/

theorem answer_front_of_error (h : Lockstep 0 lead front m m') (hprogram : m'.program = m.program ++ q)
    (hm : NeverFails m.sink.medium) (hm' : NeverFails m'.sink.medium) {e : ExecutionError}
    (herror : m.step.1 = .error e) :
    m'.step.1 = .error e ∧ Lockstep 0 lead front m.step.2 m'.step.2 := by
  cases hfetch : m.fetch? with
  | none =>
    rw [step_of_fetch?_none hfetch] at herror
    cases herror
  | some i =>
    cases h.attempt_front hprogram hm hm' hfetch with
    | invalid hstep hstep' =>
      rw [hstep] at herror ⊢
      rw [hstep', h.pc, Nat.zero_add]
      exact ⟨herror, h⟩
    | executed _ _ hanswer _ _ _ =>
      rw [hanswer] at herror
      cases herror

theorem answer_front_of_running (h : Lockstep 0 lead front m m')
    (hprogram : m'.program = m.program ++ q) (hm : NeverFails m.sink.medium)
    (hm' : NeverFails m'.sink.medium) (hrunning : m.step.1 = .ok .running) :
    m'.step.1 = .ok .running := by
  have hnext : m.step.2.isHalted = false := isHalted_step_of_running hrunning
  have hstays : ¬ m.JumpsOut := by
    intro hout
    rw [isHalted_of_jumpsOut hm hout] at hnext
    cases hnext
  cases hfetch : m.fetch? with
  | none =>
    rw [step_of_fetch?_none hfetch] at hrunning
    cases hrunning
  | some i =>
    have hlockstep := h.step_front hprogram hm hm' hfetch hstays
    cases h.attempt_front hprogram hm hm' hfetch with
    | invalid hstep _ =>
      rw [hstep] at hrunning
      cases hrunning
    | executed _ _ _ hanswer' _ _ =>
      have hinside : m'.step.2.isHalted = false :=
        hlockstep.isHalted_front (by rw [program_step, program_step, hprogram]) hnext
      rw [hanswer', status, hinside]
      rfl

theorem answer_after_front_of_running (h : Lockstep 0 lead front m m')
    (hprogram : m'.program = m.program ++ q) (hm : NeverFails m.sink.medium)
    (hm' : NeverFails m'.sink.medium) {n : Nat} (hrunning : (m.after n).step.1 = .ok .running) :
    (m'.after n).step.1 = .ok .running := by
  have hn : Lockstep 0 lead front (m.after n) (m'.after n) :=
    h.of_running hprogram hm hm' (isHalted_of_executes (executes_of_running hrunning))
  exact answer_front_of_running hn (program_after_front hprogram n) (neverFails_after hm n)
    (neverFails_after hm' n) hrunning

/-- A run of the first program that fails is one of the whole. -/
theorem run_front_of_error (h : Lockstep 0 lead front m m') (hprogram : m'.program = m.program ++ q)
    (hm : NeverFails m.sink.medium) (hm' : NeverFails m'.sink.medium) {budget : Nat} {r : Run μ}
    {e : ExecutionError} (hrun : m.run budget = some r) (herror : r.result = .error e) :
    ∃ r', m'.run budget = some r' ∧ r'.result = .error e ∧
      Lockstep 0 lead front r.machine r'.machine := by
  obtain ⟨k, hk, hends, hlast, hmachine⟩ := exists_endsAt_of_run_error hrun herror
  have hrunning : (m.after k).isHalted = false := isHalted_of_step_error hlast
  have hlockstep := h.of_running hprogram hm hm' hrunning
  obtain ⟨hlast', hnext⟩ := answer_front_of_error hlockstep (program_after_front hprogram k)
    (neverFails_after hm k) (neverFails_after hm' k) hlast
  have hends' : m'.EndsAt k := by
    refine ⟨fun j hj => answer_after_front_of_running h hprogram hm hm' (hends.running j hj), ?_⟩
    rw [hlast']
    nofun
  obtain ⟨r', hr', hresult', hmachine'⟩ := run_of_endsAt hends' hk
  refine ⟨r', hr', ?_, ?_⟩
  · rw [hresult', hlast']
    rfl
  · rw [hmachine, hmachine']
    exact hnext

/-- A run of the first program that never ends is one of the whole. -/
theorem run_front_eq_none (h : Lockstep 0 lead front m m') (hprogram : m'.program = m.program ++ q)
    (hm : NeverFails m.sink.medium) (hm' : NeverFails m'.sink.medium)
    (hendless : ∀ budget, m.run budget = none) (budget : Nat) : m'.run budget = none := by
  rw [forall_run_eq_none_iff] at hendless
  revert budget
  rw [forall_run_eq_none_iff]
  exact fun n => answer_after_front_of_running h hprogram hm hm' (hendless n)

end Front

/-! ## Inside the second program

The second program stands behind the first in the whole. It goes on at the next instruction or the one
after it, which are as far apart in both as the places before. There are addresses for them, since the
whole ends in front of the largest. -/

section Back

variable {p : Program} {lead : UInt64} {front : List UInt8} {m : Machine μ} {m' : Machine ν}

omit [Medium μ] [Medium ν] in
theorem fetch?_of_back (hprogram : m'.program = p ++ m.program) (hpc : m'.pc = p.size + m.pc) :
    m'.fetch? = m.fetch? := by
  show m'.program[m'.pc]? = m.program[m.pc]?
  rw [hprogram, hpc, Array.getElem?_append_right (Nat.le_add_right _ _), Nat.add_sub_cancel_left]

theorem Lockstep.step_back (h : Lockstep p.size lead front m m') (hprogram : m'.program = p ++ m.program)
    (hsize : (p ++ m.program).size < maxAddress) (hgoto : ∀ target, .goto target ∉ m.program)
    (hm : NeverFails m.sink.medium) (hm' : NeverFails m'.sink.medium) :
    Lockstep p.size lead front m.step.2 m'.step.2 ∧
      m'.step.1 = m.step.1.mapError (.shift p.size) := by
  have hsame := fetch?_of_back hprogram h.pc
  rw [Array.size_append] at hsize
  cases hfetch : m.fetch? with
  | none =>
    rw [step_of_fetch?_none hfetch, step_of_fetch?_none (hsame.trans hfetch)]
    exact ⟨h, rfl⟩
  | some i =>
    have hinside : m.pc < m.program.size := (Array.getElem?_eq_some_iff.mp hfetch).1
    cases h.toAlike.attempt hm hm' hfetch (hsame.trans hfetch) with
    | invalid hstep hstep' =>
      rw [hstep, hstep', h.pc]
      exact ⟨h, rfl⟩
    | @executed effect heffect halike hanswer hanswer' hnext hnext' =>
      have hpc : m'.step.2.pc = p.size + m.step.2.pc := by
        rw [hnext, hnext']
        cases htransfer : effect.transfer with
        | next =>
          simp only [follow, advance, h.pc]
          omega
        | skip =>
          simp only [follow, advance, h.pc]
          omega
        | jump address =>
          obtain ⟨target, rfl, _⟩ := (Instr.transfer_eq_jump_iff heffect).mp htransfer
          exact absurd (Array.mem_of_getElem? hfetch) (hgoto target)
      refine ⟨⟨halike, hpc⟩, ?_⟩
      have hstatus : m'.step.2.status = m.step.2.status := by
        have hhalted : m'.step.2.isHalted = m.step.2.isHalted := by
          simp [isHalted, program_step, hprogram, hpc]
        rw [status, status, hhalted]
      rw [hanswer, hanswer', hstatus]
      rfl

/-- **Attempts inside the second program** and behind it. Induction on their number. -/
theorem Lockstep.after_back (h : Lockstep p.size lead front m m')
    (hprogram : m'.program = p ++ m.program) (hsize : (p ++ m.program).size < maxAddress)
    (hgoto : ∀ target, .goto target ∉ m.program) (hm : NeverFails m.sink.medium)
    (hm' : NeverFails m'.sink.medium) (n : Nat) :
    Lockstep p.size lead front (m.after n) (m'.after n) ∧
      (m'.after n).step.1 = (m.after n).step.1.mapError (.shift p.size) := by
  have hnext (k : Nat) (hk : Lockstep p.size lead front (m.after k) (m'.after k)) :=
    hk.step_back (by rw [program_after, program_after, hprogram]) (by rw [program_after]; exact hsize)
      (by rw [program_after]; exact hgoto) (neverFails_after hm k) (neverFails_after hm' k)
  have hlockstep : Lockstep p.size lead front (m.after n) (m'.after n) := by
    induction n with
    | zero => exact h
    | succ n ih => exact (hnext n ih).1
  exact ⟨hlockstep, (hnext n hlockstep).2⟩

end Back

/-! ## One program after the other -/

/-- The machine that executes `q` from where the machine `m` has left a program of `size` instructions, on
a sink of its own. -/
def goOn (m : Machine μ) (size : Nat) (q : Program) (medium : ν) : Machine ν :=
  { program := q, registers := m.registers, pc := m.pc - size, sink := { medium } }

omit [Medium μ] [Medium ν] in
theorem lockstep_start (p q : Program) (medium : μ) (medium' : ν) :
    Lockstep 0 0 [] (Machine.start p medium) (Machine.start (p ++ q) medium') :=
  ⟨⟨rfl, rfl, rfl⟩, rfl⟩

omit [Medium μ] [Medium ν] in
/-- Behind the first program the whole is in lockstep with the second. -/
theorem lockstep_goOn {ξ : Type} [Medium ξ] {p q : Program} {m : Machine μ} {m' : Machine ν}
    (h : Lockstep 0 0 [] m m') (hpc : p.size ≤ m.pc) (medium : ξ) :
    Lockstep p.size m.steps m.sink.stored.toList (m.goOn p.size q medium) m' := by
  refine ⟨⟨h.registers, ?_, ?_⟩, ?_⟩
  · rw [h.steps, UInt64.zero_add]
    exact (UInt64.add_zero _).symm
  · rw [h.output, List.nil_append]
    exact (List.append_nil _).symm
  · rw [h.pc, Nat.zero_add]
    exact (Nat.add_sub_cancel' hpc).symm

/-- **Programs compose in sequence.** Let a program be followed by another without jumps, on media that
never fail. As long as the first is running, the whole is in lockstep with it, so it fails as the first does,
and never ends if the first does not. If the first jumps to a negative address, the whole halts with it, in
the same state but for the counter, which is at the end of the whole. If the first halts in any other way,
the whole gets there with it. If there is an address for each of its instructions, it is then in lockstep
with the second program, which goes on with the registers that the first has left, at the place where the
first has left off. -/
theorem programs_compose_in_sequence {ξ : Type} [Medium ξ] {p q : Program} {medium : μ} {medium' : ν}
    {medium'' : ξ} (hm : NeverFails medium) (hm' : NeverFails medium') (hm'' : NeverFails medium'')
    (hgoto : ∀ target, .goto target ∉ q) :
    let m := Machine.start p medium
    let m' := Machine.start (p ++ q) medium'
    (∀ n, (m.after n).isHalted = false → Lockstep 0 0 [] (m.after n) (m'.after n)) ∧
    (∀ budget r e, m.run budget = some r → r.result = .error e →
      ∃ r', m'.run budget = some r' ∧ r'.result = .error e ∧
        Lockstep 0 0 [] r.machine r'.machine) ∧
    ((∀ budget, m.run budget = none) → ∀ budget, m'.run budget = none) ∧
    (∀ n, (m.after n).JumpsOut →
      m.HaltsAfter (n + 1) ∧ m'.HaltsAfter (n + 1) ∧
        Alike 0 [] (m.after (n + 1)) (m'.after (n + 1)) ∧
        (m'.after (n + 1)).pc = p.size + q.size) ∧
    ∀ n, m.HaltsAfter n → (∀ j < n, ¬ (m.after j).JumpsOut) →
      Lockstep 0 0 [] (m.after n) (m'.after n) ∧ p.size ≤ (m.after n).pc ∧
        ((p ++ q).size < maxAddress → ∀ k,
          let second := ((m.after n).goOn p.size q medium'').after k
          Lockstep p.size (m.after n).steps (m.after n).sink.stored.toList second (m'.after (n + k)) ∧
            (m'.after (n + k)).step.1 = second.step.1.mapError (.shift p.size)) := by
  intro m m'
  have hstart : Lockstep 0 0 [] m m' := lockstep_start p q medium medium'
  have hprogram : m'.program = m.program ++ q := rfl
  refine ⟨fun n => hstart.of_running hprogram hm hm',
    fun budget r e => run_front_of_error hstart hprogram hm hm',
    run_front_eq_none hstart hprogram hm hm', fun n hout => ?_, fun n hhalts hstays => ?_⟩
  · have hends := hstart.halts_of_jumpsOut hprogram hm hm' hout
    rw [hprogram, Array.size_append] at hends
    exact hends
  · obtain ⟨hfront, hpc⟩ := hstart.of_haltsAfter hprogram hm hm' hhalts hstays
    refine ⟨hfront, hpc, fun hsize k => ?_⟩
    have hwhole : (m'.after n).program = p ++ q := program_after m' n
    have hsafe : NeverFails (m'.after n).sink.medium := neverFails_after hm' n
    have hback := (lockstep_goOn (q := q) hfront hpc medium'').after_back hwhole hsize hgoto hm'' hsafe k
    rw [after_add] at hback
    exact hback

/-- A comparison at the end of the first program skips the first instruction of the second, and the error
that the second ends with is told at its place in the whole. After a jump to a negative address nothing of
the second program is executed. -/
theorem programs_compose_in_sequence_skipped :
    let skips : Program := #[.printNumber (.literal 7), .test (.literal 1) (.literal 1)]
    let jumps : Program := #[.dec (.literal 0) (.literal 1), .goto (.register 0)]
    let q : Program := #[.printNumber (.literal 8), .dec (.literal 0) (.literal 1),
      .printChar (.register 0)]
    let m := Machine.start skips Unlimited.mk
    let m' := Machine.start (skips ++ q) Unlimited.mk
    (skips ++ q).size < maxAddress ∧ (∀ target, .goto target ∉ q) ∧
      m.HaltsAfter 2 ∧ (∀ j < 2, ¬ (m.after j).JumpsOut) ∧ (m'.after 2).pc = 3 ∧
      (m'.after 3).step.1 = .error (.invalidCodePoint (-1) 4) ∧
      ((Machine.start jumps Unlimited.mk).after 1).JumpsOut ∧
      (Machine.start (jumps ++ q) Unlimited.mk).HaltsAfter 2 ∧
      ((Machine.start (jumps ++ q) Unlimited.mk).after 2).pc = 5 := by
  intro skips jumps q m m'
  have hsafe : NeverFails Unlimited.mk := neverFails_unlimited _
  have hsize : (skips ++ q).size < maxAddress := by decide +kernel
  have hgoto : ∀ target, .goto target ∉ q := by simp [q]
  have hhalts : m.HaltsAfter 2 := ⟨by decide +kernel, by decide +kernel⟩
  have hstays : ∀ j < 2, ¬ (m.after j).JumpsOut := by
    rintro j _ ⟨target, hfetch, _⟩
    have hmem := Array.mem_of_getElem? hfetch
    rw [program_after] at hmem
    simp [m, skips, Machine.start] at hmem
  have hout : ((Machine.start jumps Unlimited.mk).after 1).JumpsOut :=
    ⟨.register 0, by decide +kernel, by decide +kernel⟩
  obtain ⟨_, _, _, _, hbehind⟩ :=
    programs_compose_in_sequence (p := skips) hsafe hsafe hsafe hgoto
  obtain ⟨_, _, _, hleaves, _⟩ :=
    programs_compose_in_sequence (p := jumps) hsafe hsafe hsafe hgoto
  obtain ⟨hfront, _, hback⟩ := hbehind 2 hhalts hstays
  refine ⟨hsize, hgoto, hhalts, hstays, ?_, ?_, hout, (hleaves 1 hout).2.1,
    (hleaves 1 hout).2.2.2⟩
  · rw [hfront.pc]
    decide +kernel
  · have hfails : (((m.after 2).goOn skips.size q Unlimited.mk).after 1).step.1 =
        .error (.invalidCodePoint (-1) 2) := by
      apply Answer.ofStep_eq_failed_iff.mp
      decide +kernel
    rw [(hback hsize 1).2, hfails]
    rfl

end Machine

end RegisterMachine
