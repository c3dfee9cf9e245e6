import RegisterMachine.Proofs.Emission.Bounded
import RegisterMachine.Proofs.Machine.SinkIndependence

/-!
# Limited capacity

A medium with room for `limit` bytes receives the first `limit` bytes of what the program prints. The run
stops at the instruction whose text does not fit; given room, another run starts with that instruction
again and ends as if nothing had happened.

* **`printed`** — what the first instructions of a program print, if nothing stops them.
* **`step_onto_of_holds`**, **`step_onto_of_full`** — an attempt on the limited medium, depending on
  whether its text fits.
* **`run_onto_of_holds`** — if everything fits, the limit makes no difference.
* **`Twins`** — machines that differ in their sinks only, neither of which ever fails.
* **`limited_run_prefix_and_resumption`** — runs that are stopped by the limit, and how they go on.
-/

namespace RegisterMachine

open Medium

namespace Sink

variable {μ : Type}

/-- The sink after output that went through. -/
def receive (s : Sink μ) : Option (List UInt8) → Sink μ
  | none => s
  | some data =>
    { s with
      stored := s.stored ++ data
      flushed := (s.stored ++ data).size
      flushes := s.flushes + 1 }

/-- The same record on another medium. -/
def onto {ν : Type} (medium : ν) (s : Sink μ) : Sink ν :=
  { medium, stored := s.stored, flushed := s.flushed, flushes := s.flushes }

theorem onto_receive {ν : Type} (medium : ν) (s : Sink μ) (output : Option (List UInt8)) :
    (s.receive output).onto medium = (s.onto medium).receive output := by
  cases output <;> rfl

theorem size_receive (s : Sink μ) (output : Option (List UInt8)) :
    (s.receive output).stored.size = s.stored.size + (output.getD []).length := by
  cases output with
  | none => rfl
  | some data => exact size_stored_append s.stored data

end Sink

namespace Machine

/-- The same machine on another medium. -/
def onto {μ ν : Type} (medium : ν) (m : Machine μ) : Machine ν :=
  { program := m.program, registers := m.registers, pc := m.pc, steps := m.steps,
    sink := m.sink.onto medium }

end Machine

/-- The same run on another medium. -/
def Run.onto {μ ν : Type} (medium : ν) (r : Run μ) : Run ν :=
  { result := r.result, machine := r.machine.onto medium, events := r.events }

namespace Machine

/-! ## Attempts on both media -/

theorem send_unlimited (m : Machine Unlimited) (output : Option (List UInt8)) :
    m.send output = (.ok (), { m with sink := m.sink.receive output }) := by
  cases output with
  | none => rfl
  | some data =>
    obtain ⟨medium, _, hemit⟩ := Sink.emit_of_neverFails (neverFails_unlimited m.sink.medium) data
    rw [send, hemit]
    rfl

theorem send_of_holds {m : Machine Bounded} (h : m.sink.medium.Steady) {output : Option (List UInt8)}
    (hroom : m.sink.medium.Holds (m.sink.receive output).stored.size) :
    m.send output = (.ok (), { m with sink := m.sink.receive output }) := by
  cases output with
  | none => rfl
  | some data =>
    have hroom' : m.sink.medium.Holds (m.sink.stored.size + data.length) := by
      rwa [Sink.size_receive, Option.getD_some] at hroom
    rw [send, Sink.emit_of_holds h hroom']
    rfl

variable {m : Machine Unlimited} {b : Bounded}

/-- **An attempt whose text fits** does what it does on the unlimited medium. -/
theorem step_onto_of_holds (h : b.Steady) (hroom : b.Holds m.step.2.sink.stored.size) :
    (m.onto b).step = (m.step.1, m.step.2.onto b) := by
  cases hfetch : m.fetch? with
  | none =>
    rw [step_of_fetch?_none hfetch]
    exact step_of_fetch?_none hfetch
  | some i =>
    cases heffect : i.effect m.registers with
    | error value =>
      rw [step_of_effect_error hfetch heffect]
      exact step_of_effect_error hfetch heffect
    | ok effect =>
      have hstep := step_of_send_ok hfetch heffect (send_unlimited m effect.output)
      rw [hstep] at hroom ⊢
      have hreceive := Sink.onto_receive b m.sink effect.output
      have hsend : (m.onto b).send effect.output =
          (.ok (), { m.onto b with sink := (m.sink.receive effect.output).onto b }) := by
        rw [hreceive]
        refine send_of_holds h ?_
        show b.Holds ((m.sink.onto b).receive effect.output).stored.size
        rw [← hreceive]
        exact hroom
      exact step_of_send_ok (m := m.onto b) hfetch heffect hsend

/-- **An attempt whose text does not fit** fails, and stores what fits. -/
theorem step_onto_of_full (h : b.Steady) {limit : Nat} (hlimit : b.limit = some limit)
    (hsize : m.sink.stored.size ≤ limit) (hfull : limit < m.step.2.sink.stored.size) :
    ∃ stored : Array UInt8, stored.toList = m.step.2.sink.stored.toList.take limit ∧
      (m.onto b).step = (.error (.output b.fullFault),
        { m.onto b with sink := { m.sink.onto b with stored } }) := by
  obtain ⟨i, effect, data, hfetch, heffect, houtput⟩ :
      ∃ i effect data, m.fetch? = some i ∧ i.effect m.registers = .ok effect ∧
        effect.output = some data := by
    refine exists_print_of_stored_ne fun heq => ?_
    rw [heq] at hfull
    omega
  have hstep := step_of_send_ok hfetch heffect (send_unlimited m effect.output)
  have hstored : m.step.2.sink.stored = m.sink.stored ++ data := by
    rw [hstep, houtput]
    rfl
  rw [hstored, Sink.size_stored_append] at hfull
  have hemit : (m.onto b).sink.emit data = _ :=
    Sink.emit_of_full (s := m.sink.onto b) h hlimit hsize hfull
  refine ⟨m.sink.stored ++ data.take (limit - m.sink.stored.size), ?_, ?_⟩
  · rw [hstored]
    simp [List.take_append, List.take_of_length_le, hsize]
  · refine step_of_send_error (m := m.onto b) hfetch heffect ?_
    show (m.onto b).send effect.output = _
    rw [houtput, send, hemit]
    rfl

/-! ## If everything fits -/

theorem after_onto (h : b.Steady) {n : Nat}
    (hroom : ∀ j < n, b.Holds (m.after (j + 1)).sink.stored.size) :
    (m.onto b).after n = (m.after n).onto b := by
  induction n with
  | zero => rfl
  | succ n ih =>
    rw [after, ih fun j hj => hroom j (by omega), step_onto_of_holds h (hroom n (Nat.lt_succ_self n))]
    rfl

theorem reports_onto_of_holds (h : b.Steady) (hroom : b.Holds (m.after 1).sink.stored.size) :
    (m.onto b).reports = m.reports := by
  obtain ⟨answer, m', hstep⟩ : ∃ answer m', m.step = (answer, m') := ⟨_, _, rfl⟩
  rw [reports, reports, step_onto_of_holds (m := m) h hroom, hstep]
  rcases answer with _ | _ | _ <;> rfl

theorem runFrom_onto_of_holds (h : b.Steady) {began : UInt64} {events : Array Event} (budget : Nat)
    (hroom : ∀ j, b.Holds (m.after (j + 1)).sink.stored.size) :
    runFrom Array.push began events budget (m.onto b) =
      (runFrom Array.push began events budget m).map (Run.onto b) := by
  -- each attempt of the budget does the same on both media
  induction budget generalizing m events with
  | zero => rfl
  | succ budget ih =>
    have hstep := step_onto_of_holds (m := m) h (hroom 0)
    have hanswer : (m.onto b).step.1 = m.step.1 := by rw [hstep]
    by_cases hfirst : m.step.1 = .ok .running
    · rw [runFrom_of_running hfirst, runFrom_of_running (hanswer.trans hfirst), hstep,
        reports_onto_of_holds h (hroom 0)]
      exact ih fun j => by rw [after_step]; exact hroom (j + 1)
    · rw [runFrom_of_ended hfirst, runFrom_of_ended (hanswer ▸ hfirst), hstep,
        reports_onto_of_holds h (hroom 0)]
      rfl

theorem run_onto_of_holds (h : b.Steady) (budget : Nat)
    (hroom : ∀ j, b.Holds (m.after (j + 1)).sink.stored.size) :
    (m.onto b).run budget = (m.run budget).map (Run.onto b) :=
  runFrom_onto_of_holds h budget hroom

/-! ## Twins -/

/-- Machines that differ in their sinks only, neither of which ever fails. -/
structure Twins {μ ν : Type} [Medium μ] [Medium ν] (m : Machine μ) (m' : Machine ν) : Prop where
  core : m.core = m'.core
  neverFails : NeverFails m.sink.medium
  neverFails' : NeverFails m'.sink.medium

section Twins

variable {μ ν : Type} [Medium μ] [Medium ν] {m : Machine μ} {m' : Machine ν}

/-- Twins answer the same and print the same, and they are twins again. -/
theorem Twins.step (h : Twins m m') :
    m.step.1 = m'.step.1 ∧ Twins m.step.2 m'.step.2 ∧
      ∃ output : List UInt8, m.step.2.sink.stored = m.sink.stored ++ output ∧
        m'.step.2.sink.stored = m'.sink.stored ++ output := by
  obtain ⟨hcore, hsafe, hsafe'⟩ := h
  obtain ⟨hanswer, hnext, houtput⟩ := step_of_core_eq hcore (not_sinkFails_of_neverFails hsafe)
    (not_sinkFails_of_neverFails hsafe')
  exact ⟨hanswer, ⟨hnext, neverFails_step hsafe, neverFails_step hsafe'⟩, houtput⟩

theorem Twins.after (h : Twins m m') (n : Nat) :
    Twins (m.after n) (m'.after n) ∧
      ∃ output : List UInt8, (m.after n).sink.stored = m.sink.stored ++ output ∧
        (m'.after n).sink.stored = m'.sink.stored ++ output := by
  induction n with
  | zero => exact ⟨h, [], Array.appendList_nil.symm, Array.appendList_nil.symm⟩
  | succ n ih =>
    obtain ⟨htwins, output, hstored, hstored'⟩ := ih
    obtain ⟨_, hnext, output', hprinted, hprinted'⟩ := htwins.step
    refine ⟨hnext, output ++ output', ?_, ?_⟩
    · rw [Machine.after, hprinted, hstored, Sink.stored_append]
    · rw [Machine.after, hprinted', hstored', Sink.stored_append]

/-- If one of the twins prints, so does the other. -/
theorem Twins.prints (h : Twins m m') (hprints : m.step.2.sink.stored ≠ m.sink.stored) :
    m'.step.2.sink.stored ≠ m'.sink.stored := by
  obtain ⟨_, _, output, hstored, hstored'⟩ := h.step
  intro hsame
  have hsize := congrArg Array.size (hstored'.symm.trans hsame)
  rw [Sink.size_stored_append] at hsize
  obtain rfl : output = [] := List.length_eq_zero_iff.mp (by omega)
  rw [hstored, Array.appendList_nil] at hprints
  exact hprints rfl

theorem Twins.answer_eq (h : Twins m m') (n : Nat) : (m.after n).step.1 = (m'.after n).step.1 :=
  (h.after n).1.step.1

end Twins

/-! ## The instruction whose text does not fit -/

/-- What the first `k` instructions of a program print, if nothing stops them. -/
def printed (p : Program) (k : Nat) : List UInt8 :=
  ((Machine.start p Unlimited.mk).after k).sink.stored.toList

/-- The instruction with number `k`, counted from 0, is the first to print beyond the limit. -/
structure Overflows (p : Program) (limit k : Nat) : Prop where
  exceeds : limit < (printed p (k + 1)).length
  least : ∀ j < k, (printed p (j + 1)).length ≤ limit

/-- A run was stopped by the limit, at the instruction with number `k`. -/
structure StoppedAt (p : Program) (b : Bounded) (limit k : Nat) (m : Machine Bounded) : Prop where
  core : m.core = ((Machine.start p Unlimited.mk).after k).core
  steps : m.steps = .ofNat k
  medium : m.sink.medium = b
  stored : m.sink.stored.toList = (printed p (k + 1)).take limit
  flushed : m.sink.flushed = (printed p k).length

/-- The run `r` went on where a run had been stopped at the instruction with number `k`; on the unlimited
medium, the whole run would have been `q`. -/
structure Resumed (p : Program) (limit k budget : Nat) (q : Run Unlimited) (r : Run Bounded) :
    Prop where
  result : r.result = q.result.map (· - .ofNat k)
  /-- The difference is that of the numbers if fewer than `2 ^ 64` attempts were made. -/
  count : ∀ count, budget < UInt64.size → q.result = .ok count →
    (count - .ofNat k).toNat + k = count.toNat
  core : r.machine.core = q.machine.core
  /-- The text that did not fit is printed again, all of it. -/
  stored : r.machine.sink.stored.toList =
    (printed p (k + 1)).take limit ++ q.machine.sink.stored.toList.drop (printed p k).length
  flushed : r.machine.sink.flushed = r.machine.sink.stored.size

section Overflow

variable {p : Program} {limit k : Nat}

theorem neverFails_start (p : Program) : NeverFails (Machine.start p Unlimited.mk).sink.medium :=
  neverFails_unlimited _

theorem length_printed (p : Program) (k : Nat) :
    (printed p k).length = ((Machine.start p Unlimited.mk).after k).sink.stored.size :=
  Array.length_toList

theorem Overflows.fits (h : Overflows p limit k) : (printed p k).length ≤ limit := by
  cases k with
  | zero => exact Nat.zero_le limit
  | succ k => exact h.least k (Nat.lt_succ_self k)

theorem Overflows.prints (h : Overflows p limit k) :
    ((Machine.start p Unlimited.mk).after (k + 1)).sink.stored ≠
      ((Machine.start p Unlimited.mk).after k).sink.stored := by
  intro heq
  have hfits := h.fits
  have hexceeds := h.exceeds
  rw [printed, heq, ← printed] at hexceeds
  omega

theorem Overflows.running (h : Overflows p limit k) {j : Nat} (hj : j < k) :
    ((Machine.start p Unlimited.mk).after j).step.1 = .ok .running :=
  running_of_printing (neverFails_start p) h.prints hj

theorem Overflows.executions_eq (h : Overflows p limit k) :
    (Machine.start p Unlimited.mk).executions (k + 1) = k + 1 := by
  have hsink := not_sinkFails_of_neverFails (neverFails_after (neverFails_start p) k)
  exact executions_of_executes (fun _ => h.running) (executes_of_stored_ne hsink h.prints)

theorem Overflows.steps_eq (h : Overflows p limit k) :
    ((Machine.start p Unlimited.mk).after k).steps = .ofNat k := by
  rw [steps_after, executions_of_running fun j => h.running]
  exact UInt64.zero_add _

/-- **The run is stopped by the limit** at the first text that does not fit, of which it has stored what
fits. -/
theorem Overflows.exists_stopped (h : Overflows p limit k) (hsteady : b.Steady)
    (hlimit : b.limit = some limit) :
    (Machine.start p b).EndsAt k ∧
      ((Machine.start p b).after k).step.1 = .error (.output b.fullFault) ∧
      StoppedAt p b limit k ((Machine.start p b).after (k + 1)) := by
  have hroom : ∀ j < k, b.Holds ((Machine.start p Unlimited.mk).after (j + 1)).sink.stored.size := by
    intro j hj
    rw [Bounded.holds_iff hlimit, ← length_printed]
    exact h.least j hj
  have hbefore : ∀ j ≤ k,
      (Machine.start p b).after j = ((Machine.start p Unlimited.mk).after j).onto b :=
    fun j hj => after_onto hsteady fun i hi => hroom i (by omega)
  have hfits := h.fits
  have hexceeds := h.exceeds
  rw [length_printed] at hfits hexceeds
  obtain ⟨stored, hstored, hstep⟩ := step_onto_of_full hsteady hlimit hfits hexceeds
  rw [← hbefore k (Nat.le_refl k)] at hstep
  have hlast := congrArg Prod.fst hstep
  refine ⟨⟨fun j hj => ?_, ?_⟩, hlast, ?_⟩
  · rw [hbefore j (by omega), step_onto_of_holds hsteady (hroom j hj)]
    exact h.running hj
  · rw [hlast]
    nofun
  · rw [after, hstep, hbefore k (Nat.le_refl k)]
    refine ⟨rfl, h.steps_eq, rfl, hstored, ?_⟩
    rw [length_printed]
    exact flushed_after (neverFails_start p) rfl k

/-- Given room, a stopped machine is a twin of the machine that was not stopped. -/
theorem StoppedAt.twins {m : Machine Bounded} (h : StoppedAt p b limit k m) (hsteady : b.Steady) :
    Twins ((Machine.start p Unlimited.mk).after k)
      { m with sink := m.sink.adjust Bounded.withoutLimit } := by
  refine ⟨h.core.symm, neverFails_after (neverFails_start p) k, ?_⟩
  show NeverFails m.sink.medium.withoutLimit
  rw [h.medium]
  exact Bounded.neverFails_of_unlimited hsteady.withoutLimit rfl

/-- The run on the unlimited medium ends at the instruction where the other was stopped, or later. -/
theorem Overflows.le_of_endsAt (h : Overflows p limit k) {n : Nat}
    (hends : (Machine.start p Unlimited.mk).EndsAt n) : k ≤ n := by
  by_cases hn : n < k
  · exact absurd (h.running hn) hends.ended
  · omega

theorem toNat_ofNat_sub {k n : Nat} (hk : k ≤ n) (hn : n < UInt64.size) :
    (UInt64.ofNat n - UInt64.ofNat k).toNat + k = (UInt64.ofNat n).toNat := by
  rw [← UInt64.ofNat_sub hk, UInt64.toNat_ofNat_of_lt' hn, UInt64.toNat_ofNat_of_lt' (by omega)]
  omega

theorem Overflows.toNat_count_sub (h : Overflows p limit k) {budget : Nat} {q : Run Unlimited}
    {count : UInt64} (hq : (Machine.start p Unlimited.mk).run budget = some q)
    (hsmall : budget < UInt64.size) (hcount : q.result = .ok count) :
    (count - .ofNat k).toNat + k = count.toNat := by
  obtain ⟨n, hn, hends, hle, rfl⟩ := exists_count_of_run hq hcount
  have hk := h.le_of_endsAt hends
  have hfew := executions_le (Machine.start p Unlimited.mk) (n + 1)
  exact toNat_ofNat_sub (by omega) (by omega)

/-- **The run goes on** as if nothing had happened, if there is room. -/
theorem StoppedAt.resumed {m : Machine Bounded} (h : StoppedAt p b limit k m)
    (hover : Overflows p limit k) (hsteady : b.Steady) {budget : Nat} {q : Run Unlimited}
    (hq : (Machine.start p Unlimited.mk).run budget = some q) :
    ∃ r, Machine.run budget { m with sink := m.sink.adjust Bounded.withoutLimit } = some r ∧
      Resumed p limit k budget q r := by
  have htwins := h.twins hsteady
  obtain ⟨n, hn, hends, hresult, hmachine⟩ := exists_endsAt_of_run hq
  -- the first `k` attempts have been made already, `i` are left before the last
  obtain ⟨i, rfl⟩ := Nat.exists_eq_add_of_le (hover.le_of_endsAt hends)
  have hends' := ((endsAt_after_iff (fun j => hover.running) i).mpr hends).congr
    fun j => (htwins.answer_eq j).symm
  have hbudget : i < budget := by omega
  obtain ⟨r, hr, hresult', hmachine'⟩ := run_of_endsAt hends' hbudget
  have hanswer := htwins.answer_eq i
  obtain ⟨hlast, output, hstored, hstored'⟩ := htwins.after (i + 1)
  rw [after_add] at hanswer hlast hstored
  have hbegan : (Machine.start p Unlimited.mk).steps = 0 := rfl
  rw [hbegan, UInt64.sub_zero] at hresult
  refine ⟨r, hr, ?_, ?_, ?_, ?_, ?_⟩
  · obtain ⟨_, _, _, hsteps⟩ := core_eq_iff.mp hlast.core
    rw [hresult', hresult, ← hanswer, ← hsteps, ← h.steps]
    cases ((Machine.start p Unlimited.mk).after (k + i)).step.1 <;> rfl
  · exact fun count hsmall hcount => hover.toNat_count_sub hq hsmall hcount
  · rw [hmachine', hmachine]
    exact hlast.core.symm
  · rw [hmachine', hstored', hmachine]
    show (m.sink.stored ++ output).toList =
      _ ++ List.drop _ ((Machine.start p Unlimited.mk).after (k + (i + 1))).sink.stored.toList
    rw [hstored, Array.toList_appendList, Array.toList_appendList, h.stored, ← printed, List.drop_left]
  · have hsink := not_sinkFails_of_neverFails htwins.neverFails'
    have hfirst := flushed_step hsink fun hsame => absurd hsame (htwins.prints hover.prints)
    rw [hmachine', ← after_step]
    exact flushed_after (neverFails_step htwins.neverFails') hfirst i

end Overflow

/-- **Limited capacity costs nothing but the output beyond it.** If all that the program prints fits, a
run is what it is on the unlimited medium, at every step. Otherwise it is stopped by the first instruction
whose text does not fit, when all instructions before have been executed; and when there is room again,
another run executes the instructions that are left, with the answer of the run that was never stopped. -/
theorem limited_run_prefix_and_resumption {p : Program} {b : Bounded} {limit : Nat}
    (hlimit : b.limit = some limit) (hsteady : b.Steady) :
    ((∀ k, (printed p (k + 1)).length ≤ limit) → ∀ budget,
      (Machine.start p b).run budget =
        ((Machine.start p Unlimited.mk).run budget).map (Run.onto b)) ∧
    ∀ k, Overflows p limit k →
      (Machine.start p Unlimited.mk).executions (k + 1) = k + 1 ∧
      ∃ stopped, StoppedAt p b limit k stopped ∧
        (∀ budget, budget ≤ k → (Machine.start p b).run budget = none) ∧
        (∀ budget, k < budget → ∃ r, (Machine.start p b).run budget = some r ∧
          r.result = .error (.output b.fullFault) ∧ r.machine = stopped) ∧
        ∀ budget q, (Machine.start p Unlimited.mk).run budget = some q →
          ∃ r, Machine.run budget
              { stopped with sink := stopped.sink.adjust Bounded.withoutLimit } = some r ∧
            Resumed p limit k budget q r := by
  refine ⟨fun hfits budget => ?_, fun k hover => ⟨hover.executions_eq, ?_⟩⟩
  · have hroom (j : Nat) :
        b.Holds ((Machine.start p Unlimited.mk).after (j + 1)).sink.stored.size := by
      rw [Bounded.holds_iff hlimit, ← length_printed]
      exact hfits j
    exact run_onto_of_holds hsteady budget hroom
  · obtain ⟨hends, hlast, hstopped⟩ := hover.exists_stopped hsteady hlimit
    refine ⟨_, hstopped, fun budget hbudget => run_eq_none_of_endsAt hends hbudget, ?_, ?_⟩
    · intro budget hbudget
      obtain ⟨r, hr, hresult, hmachine⟩ := run_of_endsAt hends hbudget
      rw [hlast] at hresult
      exact ⟨r, hr, hresult, hmachine⟩
    · intro budget q hq
      exact hstopped.resumed hover hsteady hq

/-- There is room for two of the three characters of `-12`, in calls of one byte each. When there is room
for more, the number is printed again. -/
theorem limited_run_prefix_and_resumption_retried :
    let p : Program := #[.dec (.literal 0) (.literal 12), .printNumber (.register 0),
      .printChar (.literal 65)]
    let b : Bounded := { limit := some 2, chunk := some 1, whenFull := .takesNothing }
    Overflows p 2 1 ∧ ∃ stopped r, (Machine.start p b).run 9 = some stopped ∧
      stopped.result = .error (.output Sink.nothingTaken) ∧ stopped.machine.steps = 1 ∧
      stopped.machine.sink.stored.toList = [45, 49] ∧
      Machine.run 9 { stopped.machine with
        sink := stopped.machine.sink.adjust Bounded.withoutLimit } = some r ∧
      r.result = .ok 2 ∧ r.machine.steps = 3 ∧
      r.machine.sink.stored.toList = [45, 49, 45, 49, 50, 65] := by
  intro p b
  have hover : Overflows p 2 1 := ⟨by decide +kernel, by decide +kernel⟩
  have hsteady : b.Steady := ⟨fun chunk h => by cases h; decide, rfl⟩
  obtain ⟨q, hq⟩ : ∃ q, (Machine.start p Unlimited.mk).run 9 = some q :=
    Option.isSome_iff_exists.mp (by decide +kernel)
  have hseen : ((Machine.start p Unlimited.mk).run 9).map
      (fun q => (q.result.toOption, q.machine.steps, q.machine.sink.stored.toList)) =
        some (some 3, 3, [45, 49, 50, 65]) := by decide +kernel
  rw [hq, Option.map_some, Option.some.injEq, Prod.mk.injEq, Prod.mk.injEq] at hseen
  obtain ⟨hcount, hsteps, hall⟩ := hseen
  obtain ⟨_, stopped, hstopped, _, hends, hresume⟩ :=
    (limited_run_prefix_and_resumption (rfl : b.limit = some 2) hsteady).2 1 hover
  obtain ⟨s, hs, hfault, rfl⟩ := hends 9 (by decide)
  obtain ⟨r, hr, hresumed⟩ := hresume 9 q hq
  have htext : printed p 2 = [45, 49, 50] := by decide +kernel
  have hbefore : (printed p 1).length = 0 := by decide +kernel
  refine ⟨hover, s, r, hs, hfault, hstopped.steps, ?_, hr, ?_, ?_, ?_⟩
  · rw [hstopped.stored, htext]
    rfl
  · rw [hresumed.result, toOption_eq_some_iff.mp hcount]
    rfl
  · obtain ⟨_, _, _, hsame⟩ := core_eq_iff.mp hresumed.core
    rw [hsame, hsteps]
  · rw [hresumed.stored, htext, hbefore, hall]
    rfl

end Machine

end RegisterMachine
