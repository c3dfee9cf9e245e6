import RegisterMachine.Machine.Session
import RegisterMachine.Proofs.Machine.Runs

/-!
# Sessions

Calls use a machine in whatever way, and change its medium in between. All that a session does to the
machine is a row of attempts and changes of the medium, in some order.

* **`attemptsUpTo`**, **`Call.attempts`** — how many attempts a call makes.
* **`executedBy`** — how many instructions the calls of a session execute.
* **`history`** — the machines that the attempts of a session are made on.
* **`ReachesVia`** — a machine becomes another by attempts, on the machines of a list, and by changes of
  its medium. What holds in every session is proved by induction on it.
* **`ReachesVia.program_eq`** — the program is the same all the time.
* **`ReachesVia.steps_eq`** — the step counter counts the machines of the list that executed something.
* **`reachesVia_performAll`** — sessions lead to machines that are reached.
-/

namespace RegisterMachine

theorem Answer.ofStep_eq_failed_iff {answer : Except ExecutionError Status} {e : ExecutionError} :
    Answer.ofStep answer = .failed e ↔ answer = .error e := by
  cases answer with
  | error e' => simp [Answer.ofStep]
  | ok status => simp [Answer.ofStep]

theorem Answer.ofRun_eq_failed_iff {answer : Except ExecutionError UInt64} {e : ExecutionError} :
    Answer.ofRun answer = .failed e ↔ answer = .error e := by
  cases answer with
  | error e' => simp [Answer.ofRun]
  | ok count => simp [Answer.ofRun]

namespace Machine

variable {μ : Type} [Medium μ]

/-! ## The attempts of a call -/

/-- The number of attempts up to the first that does not answer that the machine is running, but at
most `count`. -/
def attemptsUpTo : (count : Nat) → Machine μ → Nat
  | 0, _ => 0
  | count + 1, m => if m.step.1.toOption = some .running then attemptsUpTo count m.step.2 + 1 else 1

theorem attemptsUpTo_of_running {m : Machine μ} (h : m.step.1 = .ok .running) (count : Nat) :
    attemptsUpTo (count + 1) m = attemptsUpTo count m.step.2 + 1 :=
  if_pos (toOption_eq_some_iff.mpr h)

theorem attemptsUpTo_of_ended {m : Machine μ} (h : m.step.1 ≠ .ok .running) (count : Nat) :
    attemptsUpTo (count + 1) m = 1 :=
  if_neg (mt toOption_eq_some_iff.mp h)

theorem attemptsUpTo_of_endsAt {m : Machine μ} {k count : Nat} (h : m.EndsAt k) (hk : k < count) :
    attemptsUpTo count m = k + 1 := by
  obtain ⟨count, rfl⟩ := Nat.exists_eq_add_one_of_ne_zero (Nat.ne_zero_of_lt hk)
  induction k generalizing m count with
  | zero => exact attemptsUpTo_of_ended h.ended count
  | succ k ih =>
    have hfirst : m.step.1 = .ok .running := h.running 0 (Nat.succ_pos k)
    obtain ⟨count, rfl⟩ := Nat.exists_eq_add_one_of_ne_zero (n := count) (by omega)
    rw [attemptsUpTo_of_running hfirst, ih ((endsAt_step_iff hfirst k).mpr h) count (by omega)]

theorem stepsUpTo_of_running {m : Machine μ} (h : m.step.1 = .ok .running) (last : Answer)
    (count : Nat) :
    m.stepsUpTo last (count + 1) = m.step.2.stepsUpTo (.status .running) count := by
  have hstep : m.step = (.ok .running, m.step.2) := Prod.ext h rfl
  rw [stepsUpTo, hstep]

theorem stepsUpTo_of_ended {m : Machine μ} (h : m.step.1 ≠ .ok .running) (last : Answer)
    (count : Nat) : m.stepsUpTo last (count + 1) = (.ofStep m.step.1, m.step.2) := by
  obtain ⟨answer, m', hstep⟩ : ∃ answer m', m.step = (answer, m') := ⟨_, _, rfl⟩
  rw [hstep] at h
  rw [stepsUpTo, hstep]
  split
  · next heq => exact absurd (congrArg Prod.fst heq) h
  · next heq => cases heq; rfl

theorem stepsUpTo_snd (m : Machine μ) (last : Answer) (count : Nat) :
    (m.stepsUpTo last count).2 = m.after (attemptsUpTo count m) := by
  induction count generalizing m last with
  | zero => rfl
  | succ count ih =>
    by_cases hfirst : m.step.1 = .ok .running
    · rw [stepsUpTo_of_running hfirst, ih, attemptsUpTo_of_running hfirst, after_step]
    · rw [stepsUpTo_of_ended hfirst, attemptsUpTo_of_ended hfirst]
      rfl

theorem machine_of_run {m : Machine μ} {budget : Nat} {r : Run μ} (h : m.run budget = some r) :
    r.machine = m.after (attemptsUpTo budget m) := by
  obtain ⟨k, hk, hends, _, hmachine⟩ := exists_endsAt_of_run h
  rw [hmachine, attemptsUpTo_of_endsAt hends hk]

end Machine

/-- The number of attempts that a call makes. -/
def Call.attempts {μ : Type} [Medium μ] (budget : Nat) (m : Machine μ) : Call μ → Nat
  | .step => 1
  | .steps count => m.attemptsUpTo count
  | .run => m.attemptsUpTo budget
  | .adjust _ => 0

/-- What a call makes of the medium, apart from what its attempts do to it. -/
def Call.change {μ : Type} : Call μ → μ → μ
  | .adjust change => change
  | _ => id

namespace Machine

variable {μ : Type} [Medium μ]

/-- The number of instructions that calls execute, one call after the other. -/
def executedBy (budget : Nat) (m : Machine μ) : List (Call μ) → Nat
  | [] => 0
  | call :: calls =>
    m.executions (call.attempts budget m) +
      (m.perform budget call).elim 0 fun result => result.2.executedBy budget calls

/-- The machines that the attempts of calls are made on, one call after the other. -/
def history (budget : Nat) (m : Machine μ) : List (Call μ) → List (Machine μ)
  | [] => []
  | call :: calls =>
    m.trail (call.attempts budget m) ++
      (m.perform budget call).elim [] fun result => result.2.history budget calls

theorem executions_eq_countP_trail (m : Machine μ) (n : Nat) :
    m.executions n = (m.trail n).countP executes := by
  rw [executions, trail, List.countP_map]
  rfl

theorem executedBy_eq_countP_history (budget : Nat) (m : Machine μ) (calls : List (Call μ)) :
    m.executedBy budget calls = (m.history budget calls).countP executes := by
  induction calls generalizing m with
  | nil => rfl
  | cons call calls ih =>
    rw [executedBy, history, List.countP_append, executions_eq_countP_trail]
    cases m.perform budget call with
    | none => rfl
    | some result => rw [Option.elim_some, Option.elim_some, ih]

/-- What a call leaves: the machine after its attempts, on the changed medium. -/
theorem machine_of_perform {budget : Nat} {m m' : Machine μ} {call : Call μ} {answer : Answer}
    (h : m.perform budget call = some (answer, m')) :
    m' = { m.after (call.attempts budget m) with
      sink := (m.after (call.attempts budget m)).sink.adjust call.change } := by
  cases call with
  | step => cases h; rfl
  | steps count =>
    have hlast : (m.stepsUpTo .silent count).2 = m' := congrArg Prod.snd (Option.some.inj h)
    rw [← hlast, stepsUpTo_snd]
    rfl
  | run =>
    obtain ⟨r, hr, heq⟩ := Option.map_eq_some_iff.mp h
    cases heq
    exact machine_of_run hr
  | adjust change => cases h; rfl

theorem performAll_cons_eq_some_iff {budget : Nat} {m m' : Machine μ} {call : Call μ}
    {calls : List (Call μ)} {answers : List Answer} :
    m.performAll budget (call :: calls) = some (answers, m') ↔
      ∃ answer next rest, m.perform budget call = some (answer, next) ∧
        next.performAll budget calls = some (rest, m') ∧ answers = answer :: rest := by
  constructor
  · intro h
    cases hcall : m.perform budget call with
    | none =>
      rw [performAll, hcall] at h
      cases h
    | some result =>
      obtain ⟨answer, next⟩ := result
      rw [performAll, hcall] at h
      obtain ⟨⟨rest, last⟩, hrest, heq⟩ := Option.map_eq_some_iff.mp h
      cases heq
      exact ⟨answer, next, rest, rfl, hrest, rfl⟩
  · rintro ⟨answer, next, rest, hcall, hrest, rfl⟩
    simp only [performAll, hcall, hrest, Option.map_some]

/-! ## Machines that are reached -/

/-- The first machine becomes the second by attempts and changes of its medium. The list holds the machines
that the attempts were made on. -/
inductive ReachesVia (m : Machine μ) : List (Machine μ) → Machine μ → Prop where
  | refl : ReachesVia m [] m
  | attempt {past : List (Machine μ)} {m' : Machine μ} (h : ReachesVia m past m') :
      ReachesVia m (past ++ [m']) m'.step.2
  | adjust {past : List (Machine μ)} {m' : Machine μ} (h : ReachesVia m past m') (change : μ → μ) :
      ReachesVia m past { m' with sink := m'.sink.adjust change }

theorem ReachesVia.trans {m m' m'' : Machine μ} {past past' : List (Machine μ)}
    (h : ReachesVia m past m') (h' : ReachesVia m' past' m'') : ReachesVia m (past ++ past') m'' := by
  induction h' with
  | refl =>
    rw [List.append_nil]
    exact h
  | attempt _ ih =>
    rw [← List.append_assoc]
    exact .attempt ih
  | adjust _ change ih => exact .adjust ih change

theorem reachesVia_after (m : Machine μ) (n : Nat) : ReachesVia m (m.trail n) (m.after n) := by
  induction n with
  | zero => exact .refl
  | succ n ih =>
    rw [trail_succ]
    exact .attempt ih

/-- All machines of a history execute the same program. -/
theorem ReachesVia.program_eq {m m' : Machine μ} {past : List (Machine μ)} (h : ReachesVia m past m') :
    m'.program = m.program ∧ ∀ n ∈ past, n.program = m.program := by
  induction h with
  | refl => exact ⟨rfl, fun n hn => absurd hn List.not_mem_nil⟩
  | adjust _ _ ih => exact ih
  | @attempt past m' _ ih =>
    obtain ⟨hprogram, hpast⟩ := ih
    refine ⟨(program_step m').trans hprogram, fun n hn => ?_⟩
    rcases List.mem_append.mp hn with hn | hn
    · exact hpast n hn
    · rw [List.mem_singleton.mp hn, hprogram]

/-- The step counter counts the executed instructions, modulo `2 ^ 64`. -/
theorem ReachesVia.steps_eq {m m' : Machine μ} {past : List (Machine μ)} (h : ReachesVia m past m') :
    m'.steps = m.steps + UInt64.ofNat (past.countP executes) := by
  induction h with
  | refl => exact (UInt64.add_zero _).symm
  | attempt _ ih =>
    rw [steps_step, ih, List.countP_append, List.countP_singleton, UInt64.ofNat_add, UInt64.add_assoc]
  | adjust _ _ ih => exact ih

/-- **Sessions lead to machines that are reached.** -/
theorem reachesVia_performAll {budget : Nat} {m m' : Machine μ} {calls : List (Call μ)}
    {answers : List Answer} (h : m.performAll budget calls = some (answers, m')) :
    ReachesVia m (m.history budget calls) m' := by
  induction calls generalizing m answers with
  | nil => cases h; exact .refl
  | cons call calls ih =>
    obtain ⟨answer, next, rest, hcall, hrest, rfl⟩ := performAll_cons_eq_some_iff.mp h
    have hnext : ReachesVia m (m.trail (call.attempts budget m)) next := by
      rw [machine_of_perform hcall]
      exact .adjust (reachesVia_after m _) call.change
    rw [history, hcall]
    exact hnext.trans (ih hrest)

end Machine

end RegisterMachine
