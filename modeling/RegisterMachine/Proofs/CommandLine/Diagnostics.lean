import RegisterMachine.Proofs.CommandLine.Arguments
import RegisterMachine.Proofs.CommandLine.Status
import RegisterMachine.Proofs.Machine.Events
import RegisterMachine.Proofs.Machine.LimitedCapacity

/-!
# Diagnostics

How much a command line tells of a run is chosen by its options and from outside. What the program does is
the same in any case: the output, the exit code, the failure, and the number of executed instructions.

* **`Machine.Twins.run`**, **`Launch.exists_twin`** — on media that never fail, runs and launches end in the
  same way and report the same.
* **`CommandLine.Tells`**, **`CommandLine.tells_of_launch`** — what comes of a command line, said through a
  launch of its program.
* **`CommandLine.diagnostics_change_nothing`** — two command lines for one program.
-/

namespace RegisterMachine

open Medium

variable {μ ν : Type} [Medium μ] [Medium ν]

/-! ## Media that never fail -/

theorem Sink.flush_of_neverFails {s : Sink μ} (h : NeverFails s.medium) : s.flush.1 = .ok () := by
  obtain ⟨medium, hflush, _⟩ := h.flush s.flushes
  rw [Sink.flush, hflush]

theorem Machine.twins_start {medium : μ} {medium' : ν} (hm : NeverFails medium) (hm' : NeverFails medium')
    (p : Program) : Twins (Machine.start p medium) (Machine.start p medium') :=
  ⟨rfl, hm, hm'⟩

/-- Twins make the same attempts. -/
theorem Machine.Twins.attempts_eq {m : Machine μ} {m' : Machine ν} (h : Twins m m') (n : Nat) :
    (m'.trail n).filterMap attempt? = (m.trail n).filterMap attempt? := by
  induction n with
  | zero => rfl
  | succ n ih =>
    have hattempt : (m'.after n).attempt? = (m.after n).attempt? := (congrArg attempt? (h.after n).1.core).symm
    rw [trail_succ, trail_succ, List.filterMap_append, List.filterMap_append, ih]
    simp only [List.filterMap_cons, hattempt, List.filterMap_nil]

/-- Runs of twins answer the same, print the same and report the same. -/
theorem Machine.Twins.run {m : Machine μ} {m' : Machine ν} (h : Twins m m') {budget : Nat} {r : Run μ}
    (hrun : m.run budget = some r) :
    ∃ r', m'.run budget = some r' ∧ r'.result = r.result ∧ r'.events = r.events ∧
      Twins r.machine r'.machine ∧
      ∃ output : List UInt8, r.machine.sink.stored = m.sink.stored ++ output ∧
        r'.machine.sink.stored = m'.sink.stored ++ output := by
  -- the answers are the same, so both runs end with the same attempt
  obtain ⟨k, hk, hends, hresult, hmachine⟩ := exists_endsAt_of_run hrun
  have hends' : m'.EndsAt k := hends.congr fun n => (h.answer_eq n).symm
  obtain ⟨r', hr', hresult', hmachine'⟩ := run_of_endsAt hends' hk
  obtain ⟨hlast, houtput⟩ := h.after (k + 1)
  obtain ⟨_, _, _, hbegan⟩ := core_eq_iff.mp h.core
  obtain ⟨_, _, hpc, hsteps⟩ := core_eq_iff.mp hlast.core
  have hanswer : r'.result = r.result := by
    rw [hresult', hresult, h.answer_eq k, hbegan, hsteps]
  have hhalting : r'.halting? = r.halting? := by
    rw [Run.halting?, Run.halting?, hanswer, hmachine, hmachine', hpc, hsteps]
  refine ⟨r', hr', hanswer, ?_, ?_, ?_⟩
  · rw [← Array.toList_inj, events_of_run hends' hr', events_of_run hends hrun, h.attempts_eq, hhalting]
  · rw [hmachine, hmachine']
    exact hlast
  · rw [hmachine, hmachine']
    exact houtput

namespace Launch

variable {budget : Nat} {sources : Sources} {input : Input} {medium : μ} {medium' : ν}

/-- **Launches on media that never fail** end with the same result, have stored the same and have reported
the same. -/
theorem exists_twin (hm : NeverFails medium) (hm' : NeverFails medium') {l : Launch μ}
    (h : launch budget sources input medium = some l) :
    ∃ l', launch budget sources input medium' = some l' ∧ l'.result = l.result ∧
      l'.sink.stored = l.sink.stored ∧ l'.events = l.events := by
  obtain ⟨answer, hread⟩ := sources.exists_delivers input
  cases answer with
  | error fault =>
    rw [launch_of_read_error hread, Option.some.injEq] at h
    subst h
    exact ⟨_, launch_of_read_error hread, rfl, rfl, rfl⟩
  | ok bytes =>
    cases hdecode : Program.decode bytes with
    | error e =>
      rw [launch_of_decode_error hread hdecode, Option.some.injEq] at h
      subst h
      exact ⟨_, launch_of_decode_error hread hdecode, rfl, rfl, rfl⟩
    | ok program =>
      rw [launch_of_decode_ok hread hdecode] at h
      obtain ⟨run, hrun, rfl⟩ := Option.map_eq_some_iff.mp h
      obtain ⟨run', hrun', hresult, hevents, htwins, output, hstored, hstored'⟩ :=
        (Machine.twins_start hm hm' program).run hrun
      -- both sinks were empty at the start
      have hsame : run'.machine.sink.stored = run.machine.sink.stored := by
        rw [hstored, hstored']
        rfl
      refine ⟨_, by rw [launch_of_decode_ok hread hdecode, hrun', Option.map_some], ?_⟩
      obtain ⟨result, hanswer⟩ : ∃ result, run.result = result := ⟨_, rfl⟩
      cases result with
      | error e =>
        rw [ofRun_of_error hanswer, ofRun_of_error (hresult.trans hanswer)]
        exact ⟨rfl, hsame, by rw [hevents]⟩
      | ok steps =>
        rw [ofRun_of_ok hanswer, ofRun_of_ok (hresult.trans hanswer)]
        refine ⟨?_, ?_, by rw [hevents]⟩
        · rw [Sink.flush_of_neverFails htwins.neverFails, Sink.flush_of_neverFails htwins.neverFails']
        · rw [Sink.stored_flush, Sink.stored_flush, hsame]

end Launch

namespace CommandLine

/-! ## What comes of a command line -/

/-- What comes of a command line tells the end of a launch: the output and the exit code, and behind what the
log writes the failure, or the summary if it was asked for. -/
structure Tells (s : Surroundings) (args : List String) (request : RunRequest) (l : Launch μ) (e : Exit) :
    Prop where
  output : e.output = l.sink.stored.toList
  succeeded : ∀ steps, l.result = .ok steps → e.code = 0 ∧
    e.statusText = (s.log request).written l.records ++
      if AsksForTime args then timeLine (isColoured request s) steps s.elapsed else ""
  failed : ∀ chain, l.chain? = some chain → e.code = 1 ∧
    e.statusText = (s.log request).written l.records ++ failureLine (isColoured request s) chain

omit [Medium μ] in
theorem tells_of_launch {s : Surroundings} (hparser : s.arguments.ReadsTime) {args : List String}
    {request : RunRequest} (hargs : s.arguments.invocation args = .run request) {l : Launch μ}
    {l' : Launch Unlimited} (hresult : l'.result = l.result) (hstored : l'.sink.stored = l.sink.stored)
    (hevents : l'.events = l.events) : Tells s args request l (exitOf request s l') := by
  have hrecords : l'.records = l.records := by
    rw [Launch.records, hevents, Launch.records]
  constructor
  case output => exact congrArg Array.toList hstored
  case succeeded =>
    intro steps hok
    rw [← hresult] at hok
    refine ⟨congrArg Exit.codeOf hok, ?_⟩
    rw [statusText_of_ok s hok, hrecords]
    simp only [hparser args request hargs]
  case failed =>
    intro chain hchain
    have hchain' : l'.chain? = some chain := by
      rw [Launch.chain?, hresult]
      exact hchain
    obtain ⟨e, herror, _⟩ := Launch.chain?_eq_some_iff.mp hchain'
    refine ⟨congrArg Exit.codeOf herror, ?_⟩
    rw [statusText_of_error s hchain', hrecords]

/-- **Diagnostics change nothing.** Let two command lines be accepted that name the same program, with
whatever other options, settings of the log from outside, loggers, support of colours and times that the run
takes. If a launch of the program ends, on any medium that never fails, then so do both command lines. They
have the same output and the same exit code, those of the launch; behind what the log writes stands its
failure, or the summary with its number of steps if that was asked for. -/
theorem diagnostics_change_nothing {medium : μ} (hm : NeverFails medium) {budget : Nat}
    {s s' : Surroundings} (hparser : s.arguments.ReadsTime) (hparser' : s'.arguments.ReadsTime)
    {args args' : List String} {request request' : RunRequest}
    (hargs : s.arguments.invocation args = .run request)
    (hargs' : s'.arguments.invocation args' = .run request') (hsources : s'.sources = s.sources)
    (hinput : request'.input = request.input) {l : Launch μ}
    (h : launch budget s.sources request.input medium = some l) :
    ∃ e e', perform budget s args = some e ∧ perform budget s' args' = some e' ∧
      e'.output = e.output ∧ e'.code = e.code ∧ Tells s args request l e ∧ Tells s' args' request' l e' := by
  obtain ⟨l', hl', hresult, hstored, hevents⟩ :=
    Launch.exists_twin hm (neverFails_unlimited Unlimited.mk) h
  refine ⟨exitOf request s l', exitOf request' s' l', ?_, ?_, rfl, rfl,
    tells_of_launch hparser hargs hresult hstored hevents,
    tells_of_launch hparser' hargs' hresult hstored hevents⟩
  · rw [perform_eq_of_run budget s hargs, hl', Option.map_some]
  · rw [perform_eq_of_run budget s' hargs', hsources, hinput, hl', Option.map_some]

/-- Behind the mark `--time` is a word; in the second line it stands in front of it. The setting from outside
shows more than the options ask for, and a part of it cannot be read. The bytes of the second program are
none. -/
theorem diagnostics_change_nothing_timed :
    let b : Bounded := { chunk := some 1 }
    let s : Surroundings :=
      { sources := { stdin := { bytes := [0x12, 0x45, 7] } }, logSetting := some "info,x=y=z" }
    let s' : Surroundings := { sources := s.sources, colors := true, elapsed := ⟨2, 0⟩ }
    let args := ["-q", "run", "--color=never"]
    let args' := ["-vv", "run", "--time", "-q", "--", "-"]
    let broken : Surroundings := { sources := { stdin := { bytes := [0x4f] } } }
    NeverFails b ∧
    (∃ l e e', launch 2 s.sources .stdin b = some l ∧ perform 2 s args = some e ∧
      perform 2 s' args' = some e' ∧ e.output = [55] ∧ e'.output = [55] ∧ e.code = 0 ∧ e'.code = 0 ∧
      e.statusText = "warning: invalid logging spec 'x=y=z', ignoring it\n" ++
        "[INFO  tubby_cli] <stdin>: 3 bytes, 1 instructions\n" ∧
      e'.statusText = "\x1b[34;1mTIME\x1b[0m 1 instructions in 2000 ms\n") ∧
    ∃ e e', perform 2 broken args = some e ∧ perform 2 { broken with colors := true } args' = some e' ∧
      e.code = 1 ∧ e'.code = 1 ∧
      e.statusText = "error: decoding <stdin>: unknown opcode 0x4F at byte offset 0\n" ∧
      e'.statusText =
        "\x1b[31;1merror:\x1b[0m decoding <stdin>: unknown opcode 0x4F at byte offset 0\n" := by
  intro b s s' args args' broken
  have hsteady : b.Steady := ⟨fun chunk h => by cases h; decide, rfl⟩
  have hsafe : NeverFails b := Bounded.neverFails_of_unlimited hsteady rfl
  have hparser := ArgumentParser.readsTime_plain
  let request : RunRequest := { quiet := true, color := .never }
  let request' : RunRequest := { verbosity := 2, quiet := true, time := true, program := some "-" }
  have hargs : ArgumentParser.plain.invocation args = .run request := by decide +kernel
  have hargs' : ArgumentParser.plain.invocation args' = .run request' := by decide +kernel
  have hinput : request'.input = request.input := rfl
  refine ⟨hsafe, ?_, ?_⟩
  · have hlaunch : (launch 2 s.sources .stdin b).map
        (fun l => (l.result.toOption, l.sink.stored.toList, l.events.toList)) =
        some (some 1, [55], [.decoded 3 1, .loaded "<stdin>" 3 1, .attempt 0 (.printNumber (.literal 7)),
          .halted 1 1]) := by decide +kernel
    obtain ⟨l, hl, hend⟩ := Option.map_eq_some_iff.mp hlaunch
    obtain ⟨hresult, hend⟩ := Prod.mk.inj hend
    obtain ⟨hstored, hevents⟩ := Prod.mk.inj hend
    have hok : l.result = .ok 1 := Machine.toOption_eq_some_iff.mp hresult
    have hsources : s'.sources = s.sources := rfl
    obtain ⟨e, e', he, he', _, _, htells, htells'⟩ :=
      diagnostics_change_nothing hsafe hparser hparser hargs hargs' hsources hinput hl
    obtain ⟨hcode, htext⟩ := htells.succeeded 1 hok
    obtain ⟨hcode', htext'⟩ := htells'.succeeded 1 hok
    refine ⟨l, e, e', hl, he, he', htells.output.trans hstored, htells'.output.trans hstored, hcode, hcode',
      htext.trans ?_, htext'.trans ?_⟩
    · rw [Launch.records, hevents]
      decide +kernel
    · rw [Launch.records, hevents]
      decide +kernel
  · have hdecode : Program.decode [0x4f] = .error (.unknownOpcode 0x4f 0) := by decide +kernel
    obtain ⟨l, hl, hend⟩ : ∃ l, launch 2 broken.sources .stdin b = some l ∧
        l = ⟨.error (.decoding .stdin (.unknownOpcode 0x4f 0)), { medium := b }, #[]⟩ :=
      ⟨_, Launch.launch_of_decode_error (.stdin rfl) hdecode, rfl⟩
    have hchain : l.chain? = some ["decoding <stdin>", "unknown opcode 0x4F at byte offset 0"] := by
      rw [hend]
      decide +kernel
    have hsources : { broken with colors := true }.sources = broken.sources := rfl
    obtain ⟨e, e', he, he', _, _, htells, htells'⟩ :=
      diagnostics_change_nothing hsafe hparser hparser hargs hargs' hsources hinput hl
    obtain ⟨hcode, htext⟩ := htells.failed _ hchain
    obtain ⟨hcode', htext'⟩ := htells'.failed _ hchain
    refine ⟨e, e', he, he', hcode, hcode', htext.trans ?_, htext'.trans ?_⟩
    · rw [hend]
      decide +kernel
    · rw [hend]
      decide +kernel

end CommandLine

end RegisterMachine
