import RegisterMachine.Launch
import RegisterMachine.Proofs.Machine.Runs
import RegisterMachine.Proofs.Messages
import RegisterMachine.Sink.Media

/-!
# Launches

The failure of a launch tells the phase that failed, and the phase tells what has happened to the sink.

* **`LaunchError.phase_eq_of_head?_context`** — the first text of a failure tells its phase.
* **`Input.Called`**, **`Sources.Delivers`** — what an input is called, and what reading it comes to.
* **`launchInto_eq_map_launch`** — it does not matter how what a launch reports is recorded.
* **`Launch.Runs`** — the run of the program that a launch reads and decodes.
* **`Launch.Outcome`** — how a launch can end and what it leaves of the sink, one constructor for each
  phase. **`outcome_of_launch`** and **`launch_of_outcome`** say that this is what launches do.
* **`Launch.Attributed`**, **`Launch.failures_attributed_to_phases`** — the phases in the texts that a launch
  fails with, each with the conditions for it and its effect on the sink.
-/

namespace RegisterMachine

/-! ## Texts of failures -/

namespace LaunchError

/-- The part of a launch that a failure belongs to. -/
inductive Phase where
  | reading
  | decoding
  | executing
  | flushing

/-- The phase that failed. -/
def phase : LaunchError → Phase
  | reading .. => .reading
  | decoding .. => .decoding
  | executing .. => .executing
  | flushing _ => .flushing

/-- The first letter of what is said to have been done in a phase. -/
def Phase.initial : Phase → Char
  | reading => 'r'
  | decoding => 'd'
  | executing => 'e'
  | flushing => 'f'

theorem Phase.initial_injective {p q : Phase} (h : p.initial = q.initial) : p = q := by
  cases p <;> cases q <;> first | rfl | exact absurd h (by decide)

theorem head?_context (e : LaunchError) : e.context.toList.head? = some e.phase.initial := by
  cases e with
  | reading input _ =>
    show ("reading program " ++ input.name).toList.head? = some 'r'
    simp
  | decoding input _ =>
    show ("decoding " ++ input.name).toList.head? = some 'd'
    simp
  | executing input _ =>
    show ("executing " ++ input.name).toList.head? = some 'e'
    simp
  | flushing _ =>
    show "flushing program output".toList.head? = some 'f'
    simp

/-- What was being done tells the phase, whatever the program is called. -/
theorem phase_eq_of_head?_context {e : LaunchError} {p : Phase}
    (h : e.context.toList.head? = some p.initial) : e.phase = p := by
  rw [head?_context, Option.some.injEq] at h
  exact Phase.initial_injective h

end LaunchError

/-! ## Inputs -/

/-- What an input is called: a file by its path. -/
inductive Input.Called : Input → String → Prop where
  | stdin : Called .stdin "<stdin>"
  | path (name : String) : Called (.path name) name

theorem Input.Called.name_eq {input : Input} {name : String} (h : input.Called name) :
    input.name = name := by
  cases h <;> rfl

/-- What reading an input comes to. Bytes that standard input delivers before a fault count for nothing, and
for a file it does not matter. -/
inductive Sources.Delivers (s : Sources) : Input → Except Fault (List UInt8) → Prop where
  | stdin (h : s.stdin.fault = none) : Delivers s .stdin (.ok s.stdin.bytes)
  | broken {fault : Fault} (h : s.stdin.fault = some fault) : Delivers s .stdin (.error fault)
  | path (name : String) : Delivers s (.path name) (s.files.read name)

theorem Sources.delivers_iff {s : Sources} {input : Input} {answer : Except Fault (List UInt8)} :
    s.Delivers input answer ↔ s.read input = answer := by
  constructor
  · intro h
    cases h with
    | stdin h | broken h => rw [read, h]
    | path => rfl
  · rintro rfl
    cases input with
    | path name => exact .path name
    | stdin =>
      cases h : s.stdin.fault with
      | none => rw [read, h]; exact .stdin h
      | some fault => rw [read, h]; exact .broken h

theorem Sources.exists_delivers (s : Sources) (input : Input) : ∃ answer, s.Delivers input answer :=
  ⟨s.read input, delivers_iff.mpr rfl⟩

/-! ## How a launch can end -/

namespace Launch

variable {μ σ : Type} [Medium μ]

/-- The events of loading a program from bytes. -/
def loading (input : Input) (bytes : List UInt8) (program : Program) : List Event :=
  [.decoded bytes.length program.size, .loaded input.name bytes.length program.size]

/-- The launch after its run: a run that succeeded is followed by a last flush. -/
def ofRun (input : Input) (run : RecordedRun μ σ) : RecordedLaunch μ σ :=
  match run.result with
  | .error e => ⟨.error (.executing input e), run.machine.sink, run.events⟩
  | .ok steps =>
    ⟨(run.machine.sink.flush.1.map fun _ => steps).mapError .flushing, run.machine.sink.flush.2, run.events⟩

section

variable {record : σ → Event → σ} {state : σ} {budget : Nat} {sources : Sources} {input : Input}
  {medium : μ}

theorem read_within (input : Input) :
    (Phases.within (μ := μ) record budget sources).read input = pure (sources.read input) :=
  rfl

theorem report_within (e : Event) :
    ((Phases.within (μ := μ) record budget sources).report e).run state = some ((), record state e) :=
  rfl

theorem run_within (m : Machine μ) :
    ((Phases.within record budget sources).run m).run state =
      (m.runInto record state budget).map fun run => ((run.result, run.machine), run.events) :=
  rfl

theorem flush_within (sink : Sink μ) :
    (Phases.within record budget sources).flush sink = pure sink.flush :=
  rfl

theorem launchInto_of_read_error {fault : Fault} (h : sources.read input = .error fault) :
    launchInto record state budget sources input medium =
      some ⟨.error (.reading input fault), { medium }, state⟩ := by
  simp [launchInto, Phases.launch, read_within, h]

theorem launchInto_of_decode_error {bytes : List UInt8} {e : DecodeError}
    (hread : sources.read input = .ok bytes) (h : Program.decode bytes = .error e) :
    launchInto record state budget sources input medium =
      some ⟨.error (.decoding input e), { medium }, state⟩ := by
  simp [launchInto, Phases.launch, read_within, hread, h]

theorem launchInto_of_decode_ok {bytes : List UInt8} {program : Program}
    (hread : sources.read input = .ok bytes) (h : Program.decode bytes = .ok program) :
    launchInto record state budget sources input medium =
      ((Machine.start program medium).runInto record
        ((loading input bytes program).foldl record state) budget).map (ofRun input) := by
  simp only [launchInto, Phases.launch, read_within, pure_bind, hread, h, StateT.run_bind, report_within,
    run_within, flush_within, loading, List.foldl_cons, List.foldl_nil, Option.bind_eq_bind, Option.bind_some]
  cases (Machine.start program medium).runInto record
      (record (record state (.decoded bytes.length program.size))
        (.loaded input.name bytes.length program.size)) budget with
  | none => rfl
  | some run =>
    obtain ⟨result, m, events⟩ := run
    cases result with
    | error e => rfl
    | ok steps =>
      obtain ⟨answer, sink, hflush⟩ : ∃ answer sink, m.sink.flush = (answer, sink) := ⟨_, _, rfl⟩
      simp only [Option.map_some, Option.bind_some, ofRun, hflush]
      cases answer <;> rfl

/-- **What is reported does not matter for the launch.** A launch that is recorded in another way comes to the
same end, and has recorded the same events. -/
theorem launchInto_eq_map_launch (record : σ → Event → σ) (state : σ) (budget : Nat) (sources : Sources)
    (input : Input) (medium : μ) :
    launchInto record state budget sources input medium =
      (launch budget sources input medium).map fun l =>
        ⟨l.result, l.sink, l.events.toList.foldl record state⟩ := by
  unfold launch
  cases hread : sources.read input with
  | error fault => rw [launchInto_of_read_error hread, launchInto_of_read_error hread]; rfl
  | ok bytes =>
    cases hdecode : Program.decode bytes with
    | error e =>
      rw [launchInto_of_decode_error hread hdecode, launchInto_of_decode_error hread hdecode]
      rfl
    | ok program =>
      rw [launchInto_of_decode_ok hread hdecode, launchInto_of_decode_ok hread hdecode,
        Machine.runInto_eq_map_run, Machine.runInto_eq_map_run, Option.map_map, Option.map_map,
        Option.map_map]
      -- the events of loading stand in front of those of the run in either way
      refine congrArg (Option.map · _) (funext fun run => ?_)
      have hevents : (run.events.toList.foldl Array.push
          ((loading input bytes program).foldl Array.push #[])).toList =
          loading input bytes program ++ run.events.toList := by
        simp only [List.foldl_push_eq_append', Array.toList_append, List.nil_append]
      cases hresult : run.result <;> simp only [Function.comp, ofRun, hresult, hevents, List.foldl_append]

end

/-- The program that is read and decoded runs to the end `run`. -/
def Runs (budget : Nat) (sources : Sources) (input : Input) (medium : μ) (run : Run μ) : Prop :=
  ∃ bytes program, sources.Delivers input (.ok bytes) ∧ Program.decode bytes = .ok program ∧
    (Machine.start program medium).run budget = some run

/-- The ends of a launch: its result, and the sink after it. The sink is as the run left it, or flushed once
more if the run did not fail; before the run nothing has happened to it. -/
inductive Outcome (budget : Nat) (sources : Sources) (input : Input) (medium : μ) :
    Except LaunchError UInt64 → Sink μ → Prop where
  | unread {fault : Fault} (hread : sources.Delivers input (.error fault)) :
      Outcome budget sources input medium (.error (.reading input fault)) { medium }
  | rejected {bytes : List UInt8} {e : DecodeError} (hread : sources.Delivers input (.ok bytes))
      (hdecode : Program.decode bytes = .error e) :
      Outcome budget sources input medium (.error (.decoding input e)) { medium }
  | stopped {run : Run μ} {e : ExecutionError} (hrun : Runs budget sources input medium run)
      (hresult : run.result = .error e) :
      Outcome budget sources input medium (.error (.executing input e)) run.machine.sink
  | unflushed {run : Run μ} {steps : UInt64} {fault : Fault}
      (hrun : Runs budget sources input medium run) (hresult : run.result = .ok steps)
      (hflush : run.machine.sink.flush.1 = .error fault) :
      Outcome budget sources input medium (.error (.flushing fault)) run.machine.sink.flush.2
  | completed {run : Run μ} {steps : UInt64} (hrun : Runs budget sources input medium run)
      (hresult : run.result = .ok steps) (hflush : run.machine.sink.flush.1 = .ok ()) :
      Outcome budget sources input medium (.ok steps) run.machine.sink.flush.2

variable {budget : Nat} {sources : Sources} {input : Input} {medium : μ} {l : Launch μ}

theorem launch_of_read_error {fault : Fault} (h : sources.Delivers input (.error fault)) :
    launch budget sources input medium = some ⟨.error (.reading input fault), { medium }, #[]⟩ :=
  launchInto_of_read_error (Sources.delivers_iff.mp h)

theorem launch_of_decode_error {bytes : List UInt8} {e : DecodeError}
    (hread : sources.Delivers input (.ok bytes)) (h : Program.decode bytes = .error e) :
    launch budget sources input medium = some ⟨.error (.decoding input e), { medium }, #[]⟩ :=
  launchInto_of_decode_error (Sources.delivers_iff.mp hread) h

theorem launch_of_decode_ok {bytes : List UInt8} {program : Program}
    (hread : sources.Delivers input (.ok bytes)) (h : Program.decode bytes = .ok program) :
    launch budget sources input medium = ((Machine.start program medium).run budget).map fun run =>
      ofRun input { run with events := (loading input bytes program).toArray ++ run.events } := by
  rw [launch, launchInto_of_decode_ok (Sources.delivers_iff.mp hread) h, Machine.runInto_eq_map_run,
    Option.map_map]
  refine congrArg (Option.map · _) (funext fun run => congrArg (ofRun input) ?_)
  simp only [List.foldl_push_eq_append', Array.empty_append]

theorem launch_of_runs {run : Run μ} (h : Runs budget sources input medium run) :
    ∃ events, launch budget sources input medium = some (ofRun input { run with events }) := by
  obtain ⟨bytes, program, hread, hdecode, hrun⟩ := h
  exact ⟨_, by rw [launch_of_decode_ok hread hdecode, hrun, Option.map_some]⟩

theorem ofRun_of_error {run : Run μ} {e : ExecutionError} (h : run.result = .error e)
    (events : Array Event) :
    ofRun input { run with events } = ⟨.error (.executing input e), run.machine.sink, events⟩ := by
  rw [ofRun, h]

theorem ofRun_of_ok {run : Run μ} {steps : UInt64} (h : run.result = .ok steps) (events : Array Event) :
    ofRun input { run with events } = ⟨(run.machine.sink.flush.1.map fun _ => steps).mapError .flushing,
      run.machine.sink.flush.2, events⟩ := by
  rw [ofRun, h]

/-- A launch ends unless the run of its program does not. -/
theorem launch_eq_none_iff :
    launch budget sources input medium = none ↔
      ∃ bytes program, sources.Delivers input (.ok bytes) ∧ Program.decode bytes = .ok program ∧
        (Machine.start program medium).run budget = none := by
  constructor
  · intro h
    obtain ⟨answer, hread⟩ := sources.exists_delivers input
    cases answer with
    | error fault => rw [launch_of_read_error hread] at h; cases h
    | ok bytes =>
      cases hdecode : Program.decode bytes with
      | error e => rw [launch_of_decode_error hread hdecode] at h; cases h
      | ok program =>
        rw [launch_of_decode_ok hread hdecode, Option.map_eq_none_iff] at h
        exact ⟨bytes, program, hread, hdecode, h⟩
  · rintro ⟨bytes, program, hread, hdecode, hrun⟩
    rw [launch_of_decode_ok hread hdecode, hrun, Option.map_none]

theorem outcome_of_launch (h : launch budget sources input medium = some l) :
    Outcome budget sources input medium l.result l.sink := by
  obtain ⟨answer, hread⟩ := sources.exists_delivers input
  cases answer with
  | error fault =>
    rw [launch_of_read_error hread, Option.some.injEq] at h
    subst h
    exact .unread hread
  | ok bytes =>
    cases hdecode : Program.decode bytes with
    | error e =>
      rw [launch_of_decode_error hread hdecode, Option.some.injEq] at h
      subst h
      exact .rejected hread hdecode
    | ok program =>
      rw [launch_of_decode_ok hread hdecode, Option.map_eq_some_iff] at h
      obtain ⟨run, hrun, rfl⟩ := h
      have hruns : Runs budget sources input medium run := ⟨bytes, program, hread, hdecode, hrun⟩
      obtain ⟨result, hresult⟩ : ∃ result, run.result = result := ⟨_, rfl⟩
      cases result with
      | error e =>
        rw [ofRun_of_error hresult]
        exact .stopped hruns hresult
      | ok steps =>
        rw [ofRun_of_ok hresult]
        cases hflush : run.machine.sink.flush.1 with
        | error fault => exact .unflushed hruns hresult hflush
        | ok _ => exact .completed hruns hresult hflush

theorem launch_of_outcome {result : Except LaunchError UInt64} {sink : Sink μ}
    (h : Outcome budget sources input medium result sink) :
    ∃ events, launch budget sources input medium = some ⟨result, sink, events⟩ := by
  cases h with
  | unread hread => exact ⟨#[], launch_of_read_error hread⟩
  | rejected hread hdecode => exact ⟨#[], launch_of_decode_error hread hdecode⟩
  | stopped hrun hresult =>
    obtain ⟨events, hlaunch⟩ := launch_of_runs hrun
    exact ⟨_, by rw [hlaunch, ofRun_of_error hresult]⟩
  | unflushed hrun hresult hflush =>
    obtain ⟨events, hlaunch⟩ := launch_of_runs hrun
    exact ⟨_, by rw [hlaunch, ofRun_of_ok hresult, hflush]; rfl⟩
  | completed hrun hresult hflush =>
    obtain ⟨events, hlaunch⟩ := launch_of_runs hrun
    exact ⟨_, by rw [hlaunch, ofRun_of_ok hresult, hflush]; rfl⟩

/-- There is only one end. -/
theorem eq_of_outcome (h : launch budget sources input medium = some l)
    {result : Except LaunchError UInt64} {sink : Sink μ}
    (houtcome : Outcome budget sources input medium result sink) :
    l.result = result ∧ l.sink = sink := by
  obtain ⟨events, hlaunch⟩ := launch_of_outcome houtcome
  rw [h, Option.some.injEq] at hlaunch
  subst hlaunch
  exact ⟨rfl, rfl⟩

/-! ## The phases in the texts -/

/-- The texts that a launch fails with, if it does. -/
def chain? (l : Launch μ) : Option (List String) :=
  match l.result with
  | .ok _ => none
  | .error e => some e.chain

omit [Medium μ] in
theorem chain?_eq_some_iff {chain : List String} :
    l.chain? = some chain ↔ ∃ e, l.result = .error e ∧ e.chain = chain := by
  rw [chain?]
  cases l.result <;> simp

/-- What the end of a launch tells of its phases: each text that a failure can begin with stands for one
condition, which also gives the rest of the texts and what has happened to the sink. -/
structure Attributed (budget : Nat) (sources : Sources) (input : Input) (name : String) (medium : μ)
    (l : Launch μ) : Prop where
  reading : ∀ causes, l.chain? = some (("reading program " ++ name) :: causes) ↔
    ∃ fault, sources.Delivers input (.error fault) ∧ causes = fault.text :: fault.sources
  decoding : ∀ causes, l.chain? = some (("decoding " ++ name) :: causes) ↔
    ∃ bytes e, sources.Delivers input (.ok bytes) ∧ Program.decode bytes = .error e ∧ e.Told causes
  executing : ∀ causes, l.chain? = some (("executing " ++ name) :: causes) ↔
    ∃ run e, Runs budget sources input medium run ∧ run.result = .error e ∧ e.Told causes
  flushing : ∀ causes, l.chain? = some ("flushing program output" :: causes) ↔
    ∃ run steps fault, Runs budget sources input medium run ∧ run.result = .ok steps ∧
      run.machine.sink.flush.1 = .error fault ∧ causes = fault.text :: fault.sources
  reporting : ∀ steps, l.result = .ok steps ↔
    ∃ run, Runs budget sources input medium run ∧ run.result = .ok steps ∧
      run.machine.sink.flush.1 = .ok ()
  untouchedIfUnread : ∀ fault, sources.Delivers input (.error fault) → l.sink = { medium }
  untouchedIfRejected : ∀ bytes e, sources.Delivers input (.ok bytes) → Program.decode bytes = .error e →
    l.sink = { medium }
  asRunLeft : ∀ run e, Runs budget sources input medium run → run.result = .error e →
    l.sink = run.machine.sink
  flushedOnce : ∀ run steps, Runs budget sources input medium run → run.result = .ok steps →
    l.sink = run.machine.sink.flush.2

omit [Medium μ] in
/-- The first letter of the first text tells the phase of the failure. -/
theorem phase_of_chain? {context : String} {causes : List String} {p : LaunchError.Phase}
    (h : l.chain? = some (context :: causes)) (hinitial : context.toList.head? = some p.initial) :
    ∃ e, l.result = .error e ∧ e.phase = p ∧ e.causes = causes := by
  obtain ⟨e, hresult, hchain⟩ := chain?_eq_some_iff.mp h
  obtain ⟨rfl, hcauses⟩ := List.cons.inj hchain
  exact ⟨e, hresult, LaunchError.phase_eq_of_head?_context hinitial, hcauses⟩

theorem chain?_of_outcome (h : launch budget sources input medium = some l) {e : LaunchError}
    {sink : Sink μ} (houtcome : Outcome budget sources input medium (.error e) sink) :
    l.chain? = some e.chain :=
  chain?_eq_some_iff.mpr ⟨e, (eq_of_outcome h houtcome).1, rfl⟩

/-- A first text stands for a condition on the others if all ends of its phase meet the condition, and what
meets it is an end with this text. -/
theorem chain?_iff (h : launch budget sources input medium = some l) {context : String}
    {p : LaunchError.Phase} (hinitial : context.toList.head? = some p.initial)
    {condition : List String → Prop}
    (hto : ∀ e sink, Outcome budget sources input medium (.error e) sink → e.phase = p →
      condition e.causes)
    (hfrom : ∀ causes, condition causes →
      ∃ e sink, Outcome budget sources input medium (.error e) sink ∧ e.chain = context :: causes)
    (causes : List String) : l.chain? = some (context :: causes) ↔ condition causes := by
  constructor
  · intro hchain
    obtain ⟨e, hresult, hphase, rfl⟩ := phase_of_chain? hchain hinitial
    have houtcome := outcome_of_launch h
    rw [hresult] at houtcome
    exact hto e l.sink houtcome hphase
  · intro hcondition
    obtain ⟨e, sink, houtcome, hchain⟩ := hfrom causes hcondition
    rw [chain?_of_outcome h houtcome, hchain]

theorem attributed_of_launch (h : launch budget sources input medium = some l) {name : String}
    (hname : input.Called name) : Attributed budget sources input name medium l := by
  obtain rfl := hname.name_eq
  constructor
  case reading =>
    refine chain?_iff h (p := .reading) (by simp [LaunchError.Phase.initial])
      (fun e sink houtcome hphase => ?_) ?_
    · cases houtcome with
      | unread hread => exact ⟨_, hread, rfl⟩
      | _ => cases hphase
    · rintro causes ⟨fault, hread, rfl⟩
      exact ⟨_, _, .unread hread, rfl⟩
  case decoding =>
    refine chain?_iff h (p := .decoding) (by simp [LaunchError.Phase.initial])
      (fun e sink houtcome hphase => ?_) ?_
    · cases houtcome with
      | rejected hread hdecode => exact ⟨_, _, hread, hdecode, DecodeError.told_iff.mpr rfl⟩
      | _ => cases hphase
    · rintro causes ⟨bytes, e, hread, hdecode, htold⟩
      obtain rfl := DecodeError.told_iff.mp htold
      exact ⟨_, _, .rejected hread hdecode, rfl⟩
  case executing =>
    refine chain?_iff h (p := .executing) (by simp [LaunchError.Phase.initial])
      (fun e sink houtcome hphase => ?_) ?_
    · cases houtcome with
      | stopped hrun hresult => exact ⟨_, _, hrun, hresult, ExecutionError.told_iff.mpr rfl⟩
      | _ => cases hphase
    · rintro causes ⟨run, e, hrun, hresult, htold⟩
      obtain rfl := ExecutionError.told_iff.mp htold
      exact ⟨_, _, .stopped hrun hresult, rfl⟩
  case flushing =>
    refine chain?_iff h (p := .flushing) (by simp [LaunchError.Phase.initial])
      (fun e sink houtcome hphase => ?_) ?_
    · cases houtcome with
      | unflushed hrun hresult hflush => exact ⟨_, _, _, hrun, hresult, hflush, rfl⟩
      | _ => cases hphase
    · rintro causes ⟨run, steps, fault, hrun, hresult, hflush, rfl⟩
      exact ⟨_, _, .unflushed hrun hresult hflush, rfl⟩
  case reporting =>
    refine fun steps => ⟨fun hresult => ?_, ?_⟩
    · have houtcome := outcome_of_launch h
      rw [hresult] at houtcome
      -- the sink does not matter for how the launch ended
      generalize l.sink = sink at houtcome
      cases houtcome with
      | completed hrun hsteps hflush => exact ⟨_, hrun, hsteps, hflush⟩
    · rintro ⟨run, hrun, hresult, hflush⟩
      exact (eq_of_outcome h (.completed hrun hresult hflush)).1
  case untouchedIfUnread =>
    exact fun fault hread => (eq_of_outcome h (.unread hread)).2
  case untouchedIfRejected =>
    exact fun bytes e hread hdecode => (eq_of_outcome h (.rejected hread hdecode)).2
  case asRunLeft =>
    exact fun run e hrun hresult => (eq_of_outcome h (.stopped hrun hresult)).2
  case flushedOnce =>
    intro run steps hrun hresult
    cases hflush : run.machine.sink.flush.1 with
    | error fault => exact (eq_of_outcome h (.unflushed hrun hresult hflush)).2
    | ok _ => exact (eq_of_outcome h (.completed hrun hresult hflush)).2

theorem launch_path_congr (sources : Sources) (stdin : StandardInput) (path : String) :
    launch budget { sources with stdin } (.path path) medium =
      launch budget sources (.path path) medium :=
  rfl

/-- **Failures are attributed to phases.** A launch ends unless its run does not, and how it ends tells the
phase that failed, why, and what has happened to the sink: nothing before the run, nothing after a run that
failed, one flush after a run that did not. A program that stands complete before a fault of standard input
is not run, and for a file standard input does not matter. -/
theorem failures_attributed_to_phases (budget : Nat) (sources : Sources) {input : Input} {name : String}
    (hname : input.Called name) (medium : μ) :
    (launch budget sources input medium = none ↔
      ∃ bytes program, sources.Delivers input (.ok bytes) ∧ Program.decode bytes = .ok program ∧
        (Machine.start program medium).run budget = none) ∧
    (∀ l, launch budget sources input medium = some l →
      Attributed budget sources input name medium l) ∧
    (∀ fault, sources.Delivers input (.error fault) → ∃ l, launch budget sources input medium = some l ∧
      l.chain? = some (("reading program " ++ name) :: fault.text :: fault.sources) ∧
        l.sink = { medium }) ∧
    ∀ stdin path, launch budget { sources with stdin } (.path path) medium =
      launch budget sources (.path path) medium := by
  refine ⟨launch_eq_none_iff, fun l h => attributed_of_launch h hname, fun fault hread => ?_,
    launch_path_congr sources⟩
  obtain rfl := hname.name_eq
  exact ⟨_, launch_of_read_error hread, rfl, rfl⟩

/-- Standard input fails after a whole program. Of the files, one is missing, the second is no program, and for
the output of the third there is no room. -/
theorem failures_attributed_to_phases_closed :
    let files : FileSystem := ⟨fun path =>
      if path = "/srv/seven.tb" then .ok [0x12, 0x45, 7]
      else if path = "/srv/broken.tb" then .ok [0x12, 0x45, 7, 0x4f]
      else .error "No such file or directory (os error 2)"⟩
    let sources : Sources := ⟨⟨[0x12, 0x45, 7], some ⟨"read failed", ["gone"]⟩⟩, files⟩
    let b : Bounded := { limit := some 0 }
    (∃ l, launch 2 sources .stdin b = some l ∧
      l.chain? = some ["reading program <stdin>", "read failed", "gone"] ∧ l.sink = { medium := b }) ∧
    (∃ l, launch 2 sources (.path "/srv/none.tb") b = some l ∧
      l.chain? = some ["reading program /srv/none.tb", "No such file or directory (os error 2)"] ∧
        l.sink = { medium := b }) ∧
    (∃ l, launch 2 sources (.path "/srv/broken.tb") b = some l ∧
      l.chain? = some ["decoding /srv/broken.tb", "unknown opcode 0x4F at byte offset 3"] ∧
        l.sink = { medium := b }) ∧
    ∃ l run, launch 2 sources (.path "/srv/seven.tb") b = some l ∧
      Runs 2 sources (.path "/srv/seven.tb") b run ∧
      l.chain? = some ["executing /srv/seven.tb", "output error: closed", "closed"] ∧
        l.sink = run.machine.sink := by
  intro files sources b
  have hbroken : Program.decode [0x12, 0x45, 7, 0x4f] = .error (.unknownOpcode 0x4f 3) := by cbv
  have hdecode : Program.decode [0x12, 0x45, 7] = .ok #[.printNumber (.literal 7)] := by cbv
  have hfirst : (Machine.start #[.printNumber (.literal 7)] b).step.1 = .error (.output "closed") := by cbv
  have hends : (Machine.start #[.printNumber (.literal 7)] b).EndsAt 0 :=
    Machine.endsAt_zero_iff.mpr (by simp [hfirst])
  obtain ⟨run, hrun, hlast, _⟩ := Machine.run_of_endsAt hends (show 0 < 2 by decide)
  have hresult : run.result = .error (.output "closed") := hlast.trans (congrArg (Except.map _) hfirst)
  have hread : sources.Delivers (.path "/srv/broken.tb") (.ok [0x12, 0x45, 7, 0x4f]) := .path _
  have hruns : Runs 2 sources (.path "/srv/seven.tb") b run :=
    ⟨_, _, .path "/srv/seven.tb", hdecode, hrun⟩
  obtain ⟨events, hl⟩ := launch_of_runs hruns
  obtain ⟨rejected, hrejected⟩ := launch_of_outcome (.rejected hread hbroken : Outcome 2 sources _ b _ _)
  have hphases (path : String) := failures_attributed_to_phases 2 sources (.path path) b
  have hstopped := (hphases "/srv/seven.tb").2.1 _ hl
  have hnot := (hphases "/srv/broken.tb").2.1 _ hrejected
  refine ⟨(failures_attributed_to_phases 2 sources .stdin b).2.2.1 _ (.broken rfl),
    (hphases "/srv/none.tb").2.2.1 _ (.path "/srv/none.tb"), ⟨_, hrejected, ?_, ?_⟩,
    _, run, hl, hruns, ?_, ?_⟩
  · exact (hnot.decoding _).mpr ⟨_, _, hread, hbroken, .unknownOpcode 0x4f 3⟩
  · exact hnot.untouchedIfRejected _ _ hread hbroken
  · exact (hstopped.executing _).mpr ⟨run, _, hruns, hresult, .output "closed"⟩
  · exact hstopped.asRunLeft run _ hruns hresult

end Launch

end RegisterMachine
