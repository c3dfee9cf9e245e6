import RegisterMachine.Proofs.Effect
import RegisterMachine.Proofs.Machine.Sessions
import RegisterMachine.Sink.Media

/-!
# Flushing

Output is flushed by the instruction that prints it. So what is stored but not yet flushed is what an
attempt left when the sink failed under it, and the machine is still at the instruction of that attempt:
the instruction is tried again, and when it has been executed everything is flushed.

* **`prints`**, **`failsInFlush`** — the attempts that make a flush call.
* **`flushes_step`** — an attempt makes a flush call exactly then, and only one.
* **`flushed_step_of_sinkFails`** — an attempt where the sink had failed before leaves everything flushed,
  unless the sink fails again.
* **`FlushRecord`**, **`ReachesVia.flushRecord`** — the invariant: what the attempts so far say about the
  record of the sink.
* **`settled_of_perform`** — a call that does not end with a failure of the sink has made an attempt where
  it did not fail.
* **`output_never_left_unflushed`** — sessions.
-/

namespace RegisterMachine

/-- The answer of a call that has made attempts, of which the last was not one where the sink failed. -/
def Answer.settled : Answer → Bool
  | .status _ | .executed _ | .failed (.invalidCodePoint ..) => true
  | .silent | .failed (.output _) => false

namespace Machine

variable {μ : Type}

/-! ## The flush calls of an attempt -/

/-- The text that the next attempt sends to the sink, if it comes to that. -/
def text? (m : Machine μ) : Option (List UInt8) :=
  m.fetch?.bind fun i => (i.effect m.registers).toOption.bind Effect.output

theorem text?_of_effect_ok {m : Machine μ} {i : Instr} {effect : Effect} (hfetch : m.fetch? = some i)
    (heffect : i.effect m.registers = .ok effect) : m.text? = effect.output := by
  rw [text?, hfetch, Option.bind_some, heffect]
  rfl

variable [Medium μ]

/-- The next attempt executes an instruction that prints. -/
def prints (m : Machine μ) : Bool :=
  m.executes && m.fetch?.any Instr.isPrint

/-- The next attempt stores all of its text and then fails in its flush call. -/
def failsInFlush (m : Machine μ) : Bool :=
  m.text?.any fun data => (m.sink.writeAll data).1.isOk && !(m.sink.writeAll data).2.flush.1.isOk

theorem prints_of_not_executes {m : Machine μ} (h : m.executes = false) : m.prints = false := by
  rw [prints, h, Bool.false_and]

theorem failsInFlush_of_text?_none {m : Machine μ} (h : m.text? = none) : m.failsInFlush = false := by
  rw [failsInFlush, h]
  rfl

/-- **The flush calls of an attempt.** There is one if an instruction that prints is executed, one if it
fails in its flush call, and none otherwise. -/
theorem flushes_step (m : Machine μ) :
    m.step.2.sink.flushes =
      m.sink.flushes + ((if m.prints then 1 else 0) + if m.failsInFlush then 1 else 0) := by
  cases m.attempt with
  | halted hfetch hexecutes hstep =>
    have htext : m.text? = none := by
      rw [text?, hfetch]
      rfl
    rw [hstep, prints_of_not_executes hexecutes, failsInFlush_of_text?_none htext]
    rfl
  | invalid hfetch heffect hexecutes hstep =>
    have htext : m.text? = none := by
      rw [text?, hfetch, Option.bind_some, heffect]
      rfl
    rw [hstep, prints_of_not_executes hexecutes, failsInFlush_of_text?_none htext]
    rfl
  | @blocked i effect data fault sink hfetch heffect houtput hemit hexecutes hstep =>
    have htext : m.text? = some data := (text?_of_effect_ok hfetch heffect).trans houtput
    rw [hstep, prints_of_not_executes hexecutes, failsInFlush, htext, Option.any_some]
    cases Sink.interrupted_of_emit_error hemit with
    | write hwrite _ _ _ hflushes =>
      rw [hwrite]
      exact hflushes
    | flush hwrite hflush _ _ hflushes =>
      rw [hwrite, hflush]
      exact hflushes
  | @executed i effect sink hfetch heffect hsend hexecutes hstep =>
    have htext : m.text? = effect.output := text?_of_effect_ok hfetch heffect
    rw [hstep, prints, hexecutes, hfetch, Option.any_some, Instr.isPrint_eq_isSome_output heffect]
    show sink.flushes = _
    cases houtput : effect.output with
    | none =>
      rw [houtput] at hsend
      rw [failsInFlush_of_text?_none (htext.trans houtput), sink_of_send_none hsend]
      rfl
    | some data =>
      rw [houtput] at hsend
      have hdone := Sink.completed_of_emit_ok (emit_of_send_some hsend)
      rw [failsInFlush, htext, houtput, Option.any_some, hdone.write, hdone.flush]
      exact hdone.flushes

/-! ## After a failure of the sink -/

theorem exists_print_of_sinkFails {m : Machine μ} (h : m.SinkFails) :
    ∃ i effect data, m.fetch? = some i ∧ i.effect m.registers = .ok effect ∧
      effect.output = some data := by
  obtain ⟨fault, hfault⟩ := h
  obtain ⟨i, effect, data, _, hfetch, heffect, houtput, _⟩ := blocked_of_step_error hfault
  exact ⟨i, effect, data, hfetch, heffect, houtput⟩

/-- Where the sink has failed, the instruction is tried again. If it goes through, everything is flushed,
the front part of its text included that was stored before. -/
theorem flushed_step_of_sinkFails {last m : Machine μ} (hlast : last.SinkFails)
    (hcore : m.core = last.core) (h : ¬ m.SinkFails) :
    m.step.2.sink.flushed = m.step.2.sink.stored.size := by
  obtain ⟨i, effect, data, hfetch, heffect, houtput⟩ := exists_print_of_sinkFails hlast
  obtain ⟨_, hregisters, _, _⟩ := core_eq_iff.mp hcore
  have hfetch' : m.fetch? = some i := (congrArg fetch? hcore).trans hfetch
  rw [← hregisters] at heffect
  obtain ⟨answer, sink, hemit⟩ : ∃ answer sink, m.sink.emit data = (answer, sink) := ⟨_, _, rfl⟩
  cases answer with
  | error fault =>
    have hstep := step_of_send_error hfetch' heffect (by rw [houtput, send, hemit])
    exact absurd ⟨_, congrArg Prod.fst hstep⟩ h
  | ok _ =>
    have hstep := step_of_send_ok hfetch' heffect (by rw [houtput, send, hemit])
    rw [hstep]
    exact (Sink.completed_of_emit_ok hemit).flushed

theorem flushed_le_step {m : Machine μ} (h : m.sink.flushed ≤ m.sink.stored.size) :
    m.step.2.sink.flushed ≤ m.step.2.sink.stored.size := by
  cases m.attempt with
  | halted _ _ hstep => rwa [hstep]
  | invalid _ _ _ hstep => rwa [hstep]
  | blocked _ _ _ hemit _ hstep =>
    rw [hstep]
    show Sink.flushed _ ≤ (Sink.stored _).size
    cases Sink.interrupted_of_emit_error hemit with
    | write _ _ hstored hflushed _ =>
      rw [hstored, hflushed, Sink.size_stored_append]
      omega
    | flush _ _ hstored hflushed _ =>
      rw [hstored, hflushed, Sink.size_stored_append]
      omega
  | @executed i effect sink _ _ hsend _ hstep =>
    rw [hstep]
    show sink.flushed ≤ sink.stored.size
    cases houtput : effect.output with
    | none =>
      rw [houtput] at hsend
      rwa [sink_of_send_none hsend]
    | some data =>
      rw [houtput] at hsend
      exact Nat.le_of_eq (Sink.completed_of_emit_ok (emit_of_send_some hsend)).flushed

/-! ## The record of the sink -/

/-- What the machines that attempts were made on say about the record of the sink. -/
structure FlushRecord (past : List (Machine μ)) (m : Machine μ) : Prop where
  flushed_le : m.sink.flushed ≤ m.sink.stored.size
  /-- Something is not flushed: the sink failed in the last attempt, and the machine is where it was. -/
  pending : m.sink.flushed < m.sink.stored.size →
    ∃ last, past.getLast? = some last ∧ last.SinkFails ∧ m.core = last.core
  /-- Flush calls are made by instructions that print when they are executed, and by attempts that fail in
  the flush call. -/
  flushes : m.sink.flushes = past.countP prints + past.countP failsInFlush

theorem FlushRecord.attempt {past : List (Machine μ)} {m : Machine μ} (h : FlushRecord past m) :
    FlushRecord (past ++ [m]) m.step.2 := by
  refine ⟨flushed_le_step h.flushed_le, fun hpending => ?_, ?_⟩
  · -- had the sink not failed, everything would be flushed now
    refine ⟨m, List.getLast?_concat, ?_⟩
    have hfails : m.SinkFails := by
      refine Classical.byContradiction fun hfree => ?_
      have hflushed : m.step.2.sink.flushed = m.step.2.sink.stored.size := by
        by_cases hbefore : m.sink.flushed < m.sink.stored.size
        · obtain ⟨last, _, hlast, hcore⟩ := h.pending hbefore
          exact flushed_step_of_sinkFails hlast hcore hfree
        · have hle := h.flushed_le
          exact flushed_step hfree fun _ => by omega
      omega
    obtain ⟨fault, hfault⟩ := hfails
    exact ⟨⟨fault, hfault⟩, core_step_of_error hfault⟩
  · rw [flushes_step, h.flushes, List.countP_append, List.countP_append, List.countP_singleton,
      List.countP_singleton]
    omega

theorem ReachesVia.flushRecord {p : Program} {medium : μ} {past : List (Machine μ)} {m : Machine μ}
    (h : ReachesVia (Machine.start p medium) past m) : FlushRecord past m := by
  induction h with
  | refl => exact ⟨Nat.le_refl 0, fun hpending => absurd hpending (Nat.lt_irrefl 0), rfl⟩
  | attempt _ ih => exact ih.attempt
  | adjust _ _ ih => exact ⟨ih.flushed_le, ih.pending, ih.flushes⟩

/-! ## The last attempt of a call -/

theorem getLast?_trail_succ (m : Machine μ) (n : Nat) : (m.trail (n + 1)).getLast? = some (m.after n) := by
  rw [trail_succ, List.getLast?_concat]

theorem not_sinkFails_of_settled {m : Machine μ} (h : (Answer.ofStep m.step.1).settled = true) :
    ¬ m.SinkFails := by
  rintro ⟨fault, hfault⟩
  rw [hfault] at h
  cases h

/-- Steps in a row answer what the last of them answers. -/
theorem exists_last_of_stepsUpTo (m : Machine μ) (first : Answer) (count : Nat) :
    ∃ n, m.attemptsUpTo (count + 1) = n + 1 ∧
      (m.stepsUpTo first (count + 1)).1 = .ofStep (m.after n).step.1 := by
  -- on the number of steps, of which the first is the last if the machine does not go on
  induction count generalizing m first with
  | zero =>
    by_cases hrunning : m.step.1 = .ok .running
    · refine ⟨0, attemptsUpTo_of_running hrunning 0, ?_⟩
      rw [stepsUpTo_of_running hrunning, after, hrunning]
      rfl
    · refine ⟨0, attemptsUpTo_of_ended hrunning 0, ?_⟩
      rw [stepsUpTo_of_ended hrunning]
      rfl
  | succ count ih =>
    by_cases hrunning : m.step.1 = .ok .running
    · obtain ⟨n, hattempts, hanswer⟩ := ih m.step.2 (.status .running)
      rw [after_step] at hanswer
      refine ⟨n + 1, ?_, ?_⟩
      · rw [attemptsUpTo_of_running hrunning, hattempts]
      · rw [stepsUpTo_of_running hrunning, hanswer]
    · refine ⟨0, attemptsUpTo_of_ended hrunning _, ?_⟩
      rw [stepsUpTo_of_ended hrunning]
      rfl

/-- A call that ends without a failure of the sink has made an attempt, and the sink did not fail in the
last. -/
theorem settled_of_perform {budget : Nat} {m m' : Machine μ} {call : Call μ} {answer : Answer}
    (h : m.perform budget call = some (answer, m')) (hsettled : answer.settled = true) :
    ∃ n, call.attempts budget m = n + 1 ∧ ¬ (m.after n).SinkFails := by
  cases call with
  | step =>
    cases h
    exact ⟨0, rfl, not_sinkFails_of_settled hsettled⟩
  | steps count =>
    cases count with
    | zero => cases h; cases hsettled
    | succ count =>
      obtain ⟨n, hattempts, hanswer⟩ := exists_last_of_stepsUpTo m .silent count
      have hlast : (m.stepsUpTo .silent (count + 1)).1 = answer :=
        congrArg Prod.fst (Option.some.inj h)
      rw [← hlast, hanswer] at hsettled
      exact ⟨n, hattempts, not_sinkFails_of_settled hsettled⟩
  | run =>
    obtain ⟨r, hr, heq⟩ := Option.map_eq_some_iff.mp h
    cases heq
    obtain ⟨k, hk, hends, hresult, _⟩ := exists_endsAt_of_run hr
    refine ⟨k, attemptsUpTo_of_endsAt hends hk, ?_⟩
    rintro ⟨fault, hfault⟩
    rw [hresult, hfault] at hsettled
    cases hsettled
  | adjust change => cases h; cases hsettled

theorem history_cons {budget : Nat} {m next : Machine μ} {call : Call μ} {answer : Answer}
    (h : m.perform budget call = some (answer, next)) (calls : List (Call μ)) :
    m.history budget (call :: calls) =
      m.trail (call.attempts budget m) ++ next.history budget calls := by
  rw [history, h, Option.elim_some]

/-- The same for the last call of a session. -/
theorem settled_of_performAll {budget : Nat} {m m' : Machine μ} {calls : List (Call μ)}
    {answers : List Answer} {answer : Answer} (h : m.performAll budget calls = some (answers, m'))
    (hlast : answers.getLast? = some answer) (hsettled : answer.settled = true) :
    ∃ last, (m.history budget calls).getLast? = some last ∧ ¬ last.SinkFails := by
  induction calls generalizing m answers with
  | nil => cases h; cases hlast
  | cons call calls ih =>
    obtain ⟨answer', next, rest, hcall, hrest, rfl⟩ := performAll_cons_eq_some_iff.mp h
    rw [history_cons hcall]
    cases calls with
    | nil =>
      cases hrest
      cases hlast
      obtain ⟨n, hattempts, hfree⟩ := settled_of_perform hcall hsettled
      refine ⟨m.after n, ?_, hfree⟩
      rw [hattempts, history, List.append_nil, getLast?_trail_succ]
    | cons call' calls =>
      obtain ⟨answer'', _, rest', _, _, rfl⟩ := performAll_cons_eq_some_iff.mp hrest
      rw [List.getLast?_cons_cons] at hlast
      obtain ⟨last, hhistory, hfree⟩ := ih hrest hlast
      refine ⟨last, ?_, hfree⟩
      rw [List.getLast?_append, hhistory, Option.some_or]

/-! ## Output that was printed is flushed -/

/-- **Output is never left unflushed behind a success.** Let a machine be used from its start on, on
whatever medium and with whatever calls, and then make any number of attempts more, as it does in the
middle of a run. If something is stored and not flushed, the sink failed in the last attempt, and the
machine is still at the print instruction of that attempt. There were as many flush calls as instructions
that print were executed, and as attempts failed in their flush call, taken together. After a call that
ended in any other way than with a failure of the sink, everything is flushed. -/
theorem output_never_left_unflushed {p : Program} {medium : μ} {budget : Nat} {calls : List (Call μ)}
    {answers : List Answer} {m : Machine μ}
    (h : (Machine.start p medium).performAll budget calls = some (answers, m)) :
    (∀ n,
      let past := (Machine.start p medium).history budget calls ++ m.trail n
      let sink := (m.after n).sink
      sink.flushed ≤ sink.stored.size ∧
        (sink.flushed < sink.stored.size → ∃ last fault i, past.getLast? = some last ∧
          last.step.1 = .error (.output fault) ∧ last.fetch? = some i ∧ i.isPrint = true ∧
          (m.after n).pc = last.pc ∧ (m.after n).fetch? = some i) ∧
        sink.flushes = past.countP prints + past.countP failsInFlush) ∧
      ∀ answer, answers.getLast? = some answer → answer.settled = true →
        m.sink.flushed = m.sink.stored.size := by
  have hreaches := reachesVia_performAll h
  refine ⟨fun n => ?_, fun answer hlast hsettled => ?_⟩
  · obtain ⟨hle, hpending, hflushes⟩ := (hreaches.trans (reachesVia_after m n)).flushRecord
    refine ⟨hle, fun hlt => ?_, hflushes⟩
    obtain ⟨last, hpast, hfails, hcore⟩ := hpending hlt
    obtain ⟨i, effect, data, hfetch, heffect, houtput⟩ := exists_print_of_sinkFails hfails
    obtain ⟨fault, hfault⟩ := hfails
    obtain ⟨_, _, hpc, _⟩ := core_eq_iff.mp hcore
    have hprint : i.isPrint = true := by
      rw [Instr.isPrint_eq_isSome_output heffect, houtput]
      rfl
    exact ⟨last, fault, i, hpast, hfault, hfetch, hprint, hpc, (congrArg fetch? hcore).trans hfetch⟩
  · obtain ⟨hle, hpending, _⟩ := hreaches.flushRecord
    obtain ⟨last, hpast, hfree⟩ := settled_of_performAll h hlast hsettled
    refine Classical.byContradiction fun hne => ?_
    obtain ⟨last', hpast', hfails, _⟩ := hpending (by omega)
    rw [hpast] at hpast'
    cases hpast'
    exact hfree hfails

/-- The first flush call fails, and later there is room for one of the two characters of `89`. -/
theorem output_never_left_unflushed_retried :
    let p : Program := #[.printNumber (.literal 7), .printNumber (.literal 89)]
    let b : Bounded := { limit := some 3, failingFlushes := [0] }
    let calls : List (Call Bounded) := [.step, .run]
    ∃ m last, (Machine.start p b).performAll 9 calls =
        some ([.failed (.output "closed"), .failed (.output "closed")], m) ∧
      m.sink.flushed = 2 ∧ m.sink.stored.size = 3 ∧ m.sink.flushes = 2 ∧
      ((Machine.start p b).history 9 calls).countP prints = 1 ∧
      ((Machine.start p b).history 9 calls).countP failsInFlush = 1 ∧
      ((Machine.start p b).history 9 calls).getLast? = some last ∧ last.SinkFails ∧ m.pc = last.pc ∧
      m.fetch? = some (.printNumber (.literal 89)) := by
  intro p b calls
  obtain ⟨⟨answers, m⟩, h⟩ : ∃ r, (Machine.start p b).performAll 9 calls = some r :=
    Option.isSome_iff_exists.mp (by decide +kernel)
  have hseen : ((Machine.start p b).performAll 9 calls).map
      (fun r => (r.1, r.2.sink.flushed, r.2.sink.stored.size, r.2.fetch?)) =
        some ([.failed (.output "closed"), .failed (.output "closed")], 2, 3,
          some (.printNumber (.literal 89))) := by decide +kernel
  have hprints : ((Machine.start p b).history 9 calls).countP prints = 1 := by decide +kernel
  have hfails : ((Machine.start p b).history 9 calls).countP failsInFlush = 1 := by decide +kernel
  simp only [h, Option.map_some, Option.some.injEq, Prod.mk.injEq] at hseen
  obtain ⟨rfl, hflushed, hstored, hfetch⟩ := hseen
  obtain ⟨_, hpending, hflushes⟩ := (output_never_left_unflushed h).1 0
  obtain ⟨last, fault, i, hpast, hfault, _, _, hpc, _⟩ :=
    hpending (by rw [after, hflushed, hstored]; decide)
  rw [trail, List.range_zero, List.map_nil, List.append_nil] at hpast hflushes
  rw [hprints, hfails] at hflushes
  exact ⟨m, last, h, hflushed, hstored, hflushes, hprints, hfails, hpast, ⟨fault, hfault⟩, hpc, hfetch⟩

end Machine

end RegisterMachine
