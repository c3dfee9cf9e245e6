import Mathlib.Data.List.Forall2
import RegisterMachine.Proofs.CommandLine.Status
import RegisterMachine.Proofs.Machine.Events

/-!
# The log

The events of a launch record what has happened, and the log shows as many of their records as the options
ask for.

* **`Event.Told`**, **`Event.told_record`** — the records of events, with their texts and levels.
* **`Launch.Logged`**, **`Launch.logged_of_launch`** — the events of a launch, depending on how far it got.
* **`Logger.Documented`**, **`Logger.documented_plain`** — what is documented of loggers, and one of them.
* **`CommandLine.written_of_unset`** — the options choose the records up to a level.
* **`CommandLine.log_records_run`** — the log and the summary tell of the same run.
-/

namespace RegisterMachine

/-! ## Records -/

/-- An operand in a listing. -/
inductive Operand.Written : Operand → String → Prop where
  | literal (value : UInt8) : Written (.literal value) (toString value.toNat)
  | register (id : UInt8) : Written (.register id) ("r" ++ toString id.toNat)

/-- An instruction in a listing. -/
inductive Instr.Written : Instr → String → Prop where
  | inc {a b : Operand} {s t : String} (ha : a.Written s) (hb : b.Written t) :
      Written (.inc a b) ("INC " ++ s ++ ", " ++ t)
  | dec {a b : Operand} {s t : String} (ha : a.Written s) (hb : b.Written t) :
      Written (.dec a b) ("DEC " ++ s ++ ", " ++ t)
  | printNumber {a : Operand} {s : String} (ha : a.Written s) : Written (.printNumber a) ("PRINTA " ++ s)
  | printChar {a : Operand} {s : String} (ha : a.Written s) : Written (.printChar a) ("PRINTB " ++ s)
  | goto {a : Operand} {s : String} (ha : a.Written s) : Written (.goto a) ("GOTO " ++ s)
  | test {a b : Operand} {s t : String} (ha : a.Written s) (hb : b.Written t) :
      Written (.test a b) ("TEST " ++ s ++ ", " ++ t)

theorem Operand.written_text (a : Operand) : a.Written a.text := by
  cases a with
  | literal value => exact .literal value
  | register id => exact .register id

/-- What is said of an instruction with two operands. -/
theorem Instr.text_of_two {i : Instr} {a b : Operand} (h : i.operands = [a, b]) :
    i.text = i.opcode.mnemonic ++ " " ++ a.text ++ ", " ++ b.text := by
  simp [text, h, String.append_assoc]

theorem Instr.text_of_one {i : Instr} {a : Operand} (h : i.operands = [a]) :
    i.text = i.opcode.mnemonic ++ " " ++ a.text := by
  simp [text, h]

theorem Instr.written_text (i : Instr) : i.Written i.text := by
  cases i with
  | inc a b => rw [text_of_two rfl]; exact .inc a.written_text b.written_text
  | dec a b => rw [text_of_two rfl]; exact .dec a.written_text b.written_text
  | printNumber a => rw [text_of_one rfl]; exact .printNumber a.written_text
  | printChar a => rw [text_of_one rfl]; exact .printChar a.written_text
  | goto a => rw [text_of_one rfl]; exact .goto a.written_text
  | test a b => rw [text_of_two rfl]; exact .test a.written_text b.written_text

/-- The record of an event: how detailed it is, where it comes from, and what it says. -/
inductive Event.Told : Event → LogRecord → Prop where
  | decoded (bytes instructions : Nat) :
      Told (.decoded bytes instructions) ⟨.debug, "tubby_core::bytecode::program",
        "program decoded bytes=" ++ toString bytes ++ " instructions=" ++ toString instructions⟩
  | loaded (name : String) (bytes instructions : Nat) :
      Told (.loaded name bytes instructions) ⟨.info, "tubby_cli",
        name ++ ": " ++ toString bytes ++ " bytes, " ++ toString instructions ++ " instructions"⟩
  | attempt (pc : Nat) {i : Instr} {text : String} (h : i.Written text) :
      Told (.attempt pc i) ⟨.trace, "tubby_vm::machine", "step pc=" ++ toString pc ++ " instr=" ++ text⟩
  | halted (steps : UInt64) (pc : Nat) :
      Told (.halted steps pc) ⟨.debug, "tubby_vm::machine",
        "halted steps=" ++ toString steps.toNat ++ " pc=" ++ toString pc⟩

theorem Event.told_record (e : Event) : e.Told e.record := by
  cases e with
  | decoded bytes instructions => exact .decoded bytes instructions
  | loaded name bytes instructions => exact .loaded name bytes instructions
  | attempt pc i => exact .attempt pc i.written_text
  | halted steps pc => exact .halted steps pc

/-! ## Events of a launch -/

namespace Launch

variable {μ : Type} [Medium μ] {budget : Nat} {sources : Sources} {input : Input} {medium : μ} {l : Launch μ}

/-- What the events of a launch tell: nothing if there is no program, and else how it was loaded and how it
ran. -/
structure Logged (budget : Nat) (sources : Sources) (input : Input) (name : String) (medium : μ)
    (l : Launch μ) : Prop where
  unread : ∀ fault, sources.Delivers input (.error fault) → l.events.toList = []
  rejected : ∀ bytes e, sources.Delivers input (.ok bytes) → Program.decode bytes = .error e →
    l.events.toList = []
  loaded : ∀ bytes program, sources.Delivers input (.ok bytes) → Program.decode bytes = .ok program →
    ∃ run attempts, (Machine.start program medium).run budget = some run ∧
      (Machine.start program medium).Reported run attempts ∧
      (∀ pc i, attempts.head? = some (.attempt pc i) → pc = 0) ∧
      l.events.toList = .decoded bytes.length program.size ::
        .loaded name bytes.length program.size :: (attempts ++ run.halting?.toList)

omit [Medium μ] in
/-- A log is told the records of the events, in order. -/
theorem told_records (l : Launch μ) : List.Forall₂ Event.Told l.events.toList l.records := by
  rw [records, List.forall₂_map_right_iff]
  exact List.forall₂_same.mpr fun e _ => e.told_record

theorem events_ofRun (input : Input) (run : Run μ) : (ofRun input run).events = run.events := by
  unfold ofRun
  split <;> rfl

theorem logged_of_launch (h : launch budget sources input medium = some l) {name : String}
    (hname : input.Called name) : Logged budget sources input name medium l := by
  obtain rfl := hname.name_eq
  constructor
  case unread =>
    intro fault hread
    rw [launch_of_read_error hread] at h
    cases h
    rfl
  case rejected =>
    intro bytes e hread hdecode
    rw [launch_of_decode_error hread hdecode] at h
    cases h
    rfl
  case loaded =>
    intro bytes program hread hdecode
    rw [launch_of_decode_ok hread hdecode] at h
    obtain ⟨run, hrun, rfl⟩ := Option.map_eq_some_iff.mp h
    obtain ⟨attempts, hreported⟩ := Machine.reported_of_run hrun
    refine ⟨run, attempts, hrun, hreported, ?_, ?_⟩
    · intro pc i hfirst
      -- the first attempt is made on the machine at its start
      rw [List.head?_eq_getElem?] at hfirst
      obtain ⟨_, _, heq⟩ := hreported.traces.attempt 0 _ hfirst
      cases heq
      rfl
    · rw [events_ofRun, Array.toList_append, hreported.events]
      rfl

/-- A launch that does not fail ends with the event of its run, which tells the same number of steps. -/
theorem getLast?_events {steps : UInt64} (h : launch budget sources input medium = some l)
    (hok : l.result = .ok steps) : ∃ pc, l.events.toList.getLast? = some (.halted steps pc) := by
  obtain ⟨name, hname⟩ : ∃ name, input.Called name := by
    cases input with
    | stdin => exact ⟨_, .stdin⟩
    | path name => exact ⟨_, .path name⟩
  obtain ⟨run, ⟨bytes, program, hread, hdecode, hrun⟩, hresult, _⟩ :=
    ((attributed_of_launch h hname).reporting steps).mp hok
  obtain ⟨run', attempts, hrun', hreported, _, hevents⟩ :=
    (logged_of_launch h hname).loaded bytes program hread hdecode
  obtain rfl : run' = run := Option.some.inj (hrun'.symm.trans hrun)
  -- the machine has been started anew, so it has counted what the run has
  obtain ⟨_, _, hsteps, hcount⟩ := hreported.ok steps hresult
  have hhalting : run'.halting? = some (.halted steps run'.machine.pc) := by
    rw [Run.halting?, hresult, hsteps, hcount]
    simp [Except.toOption, Machine.start]
  refine ⟨run'.machine.pc, ?_⟩
  rw [hevents, hhalting]
  simp [List.getLast?_cons]

end Launch

/-! ## Shown records -/

/-- The names of the levels in the setting of a log, and the levels that are shown then. -/
def levelSettings : List (String × List Level) :=
  [("error", [.error]), ("warn", [.error, .warn]), ("info", [.error, .warn, .info]),
    ("debug", [.error, .warn, .info, .debug]), ("trace", [.error, .warn, .info, .debug, .trace])]

/-- A level in front of a record, in five columns. -/
def Level.column : Level → String
  | error => "ERROR"
  | warn => "WARN "
  | info => "INFO "
  | debug => "DEBUG"
  | trace => "TRACE"

/-- The record holds no control characters. -/
def LogRecord.Printable (r : LogRecord) : Prop :=
  ∀ c ∈ r.target.toList ++ r.text.toList, 0x20 ≤ c.toNat ∧ c.toNat ≠ 0x7f

instance (r : LogRecord) : Decidable r.Printable :=
  List.decidableBAll (fun c : Char => 0x20 ≤ c.toNat ∧ c.toNat ≠ 0x7f) (r.target.toList ++ r.text.toList)

/-- The line of a record: its level and its target in front of what it says. -/
def LogRecord.listed (r : LogRecord) : String :=
  "[" ++ r.level.column ++ " " ++ r.target ++ "] " ++ r.text ++ "\n"

/-- What is documented of loggers: with the name of a level as its setting, a log shows the records up to
that level, and has nothing to say about the setting. There are no colours where they are not supported. -/
structure Logger.Documented (logger : Logger) : Prop where
  opening : ∀ colors name shown, (name, shown) ∈ levelSettings → (logger.setUp colors name).opening = ""
  shows : ∀ colors name shown, (name, shown) ∈ levelSettings →
    ∀ r, (logger.setUp colors name).shows r = true ↔ r.level ∈ shown
  line : ∀ name shown, (name, shown) ∈ levelSettings →
    ∀ r : LogRecord, r.Printable → (logger.setUp false name).line r = r.listed

/-- A filter with a single directive for all records shows those up to its level. -/
theorem LogFilter.shows_of_all (level : Level) (r : LogRecord) :
    shows { directives := [⟨none, some level⟩] } r = decide (r.level.rank ≤ level.rank) := by
  simp [shows, decisive?, Directive.appliesTo, Directive.admits]

theorem LogFilter.ofText_settingName (level : Level) :
    ofText level.settingName = { directives := [⟨none, some level⟩] } ∧ faults level.settingName = [] := by
  cases level <;> exact ⟨by decide +kernel, by decide +kernel⟩

theorem mem_levelSettings_iff {name : String} {shown : List Level} (h : (name, shown) ∈ levelSettings) :
    ∃ level : Level, name = level.settingName ∧ ∀ l : Level, l ∈ shown ↔ l.rank ≤ level.rank := by
  simp only [levelSettings, List.mem_cons, Prod.mk.injEq, List.not_mem_nil, or_false] at h
  obtain ⟨rfl, rfl⟩ | ⟨rfl, rfl⟩ | ⟨rfl, rfl⟩ | ⟨rfl, rfl⟩ | ⟨rfl, rfl⟩ := h
  · exact ⟨.error, rfl, fun l => by cases l <;> decide⟩
  · exact ⟨.warn, rfl, fun l => by cases l <;> decide⟩
  · exact ⟨.info, rfl, fun l => by cases l <;> decide⟩
  · exact ⟨.debug, rfl, fun l => by cases l <;> decide⟩
  · exact ⟨.trace, rfl, fun l => by cases l <;> decide⟩

theorem Text.indented_eq_self {s : String} (h : '\n' ∉ s.toList) : Text.indented s = s := by
  have hparts : (s.toList.flatMap fun c => if c = '\n' then '\n' :: List.replicate 4 ' ' else [c]) =
      s.toList.flatMap fun c => [c] :=
    List.flatMap_congr fun c hc => if_neg fun heq : c = '\n' => h (heq ▸ hc)
  rw [Text.indented, hparts, List.flatMap_singleton', String.ofList_toList]

/-- Without control characters a record is written as it stands. -/
theorem LogRecord.Printable.plainLine_eq {r : LogRecord} (h : r.Printable) :
    Logger.plainLine r = r.listed := by
  have hpart {cs : List Char} (hcs : ∀ c ∈ cs, 0x20 ≤ c.toNat ∧ c.toNat ≠ 0x7f) :
      cs.all Text.ControlState.isVisible = true := by
    refine List.all_eq_true.mpr fun c hc => ?_
    simp [Text.ControlState.isVisible, hcs c hc]
  have htarget := hpart fun c hc => h c (List.mem_append_left _ hc)
  have htext := hpart fun c hc => h c (List.mem_append_right _ hc)
  have hlevel : r.level.column.toList.all Text.ControlState.isVisible = true := by
    cases r.level <;> decide
  have hlabel : r.level.label = r.level.column := by
    cases r.level <;> decide +kernel
  have hindented : Text.indented r.text = r.text := by
    -- a line feed would be a control character
    refine Text.indented_eq_self fun hmem => ?_
    have hprintable := (h _ (List.mem_append_right _ hmem)).1
    exact absurd hprintable (by decide)
  have hvisible : r.listed.toList.all Text.ControlState.isVisible = true := by
    simp only [listed, String.toList_append, List.all_append, hlevel, htarget, htext]
    decide
  rw [Logger.plainLine, hindented, hlabel, Text.visible, ← listed,
    Text.visibleFrom_eq_self (List.all_eq_true.mp hvisible), String.ofList_toList]

/-- **The usual logger is as documented.** -/
theorem Logger.documented_plain : plain.Documented where
  opening colors name shown hmem := by
    obtain ⟨level, rfl, _⟩ := mem_levelSettings_iff hmem
    show String.join ((LogFilter.faults level.settingName).map _) = ""
    rw [(LogFilter.ofText_settingName level).2]
    rfl
  shows colors name shown hmem r := by
    obtain ⟨level, rfl, hshown⟩ := mem_levelSettings_iff hmem
    show (LogFilter.ofText level.settingName).shows r = true ↔ _
    rw [(LogFilter.ofText_settingName level).1, LogFilter.shows_of_all, decide_eq_true_iff, hshown]
  line name shown hmem r h := h.plainLine_eq

namespace CommandLine

/-- The levels that are shown if no setting comes from outside. -/
def shownLevels (quiet : Bool) (verbosity : UInt8) : List Level :=
  if quiet then [.error]
  else
    match verbosity with
    | 0 => [.error, .warn]
    | 1 => [.error, .warn, .info]
    | 2 => [.error, .warn, .info, .debug]
    | _ => [.error, .warn, .info, .debug, .trace]

theorem setting_mem_levelSettings (request : RunRequest) :
    (request.logSetting none, shownLevels request.quiet request.verbosity) ∈ levelSettings := by
  show (request.level.settingName, _) ∈ levelSettings
  unfold RunRequest.level shownLevels
  cases request.quiet with
  | true => simp [levelSettings, Level.settingName]
  | false =>
    simp only [Bool.false_eq_true, if_false]
    split <;> simp_all [levelSettings, Level.settingName]

/-- The records that are shown if no setting comes from outside. -/
def RunRequest.shown (request : RunRequest) (records : List LogRecord) : List LogRecord :=
  records.filter fun r => r.level ∈ shownLevels request.quiet request.verbosity

section

variable {s : Surroundings} (hsetting : s.logSetting = none) (hlogger : s.logger.Documented)
include hsetting hlogger

/-- Without a setting from outside, the options choose the records up to a level. -/
theorem written_of_unset (request : RunRequest) (records : List LogRecord) :
    (s.log request).written records =
      String.join ((request.shown records).map (s.log request).line) := by
  have hmem := setting_mem_levelSettings request
  rw [← hsetting] at hmem
  have hshows : (s.log request).shows =
      fun r => decide (r.level ∈ shownLevels request.quiet request.verbosity) := by
    funext r
    rw [Bool.eq_iff_iff, decide_eq_true_iff]
    exact hlogger.shows _ _ _ hmem r
  have hopening : (s.log request).opening = "" := hlogger.opening _ _ _ hmem
  rw [Log.written, hshows, hopening, String.empty_append, RunRequest.shown]

/-- Without colours, records without control characters are listed. -/
theorem line_of_unset (hcolors : s.logColors = false) (request : RunRequest) {records : List LogRecord}
    (hrecords : ∀ r ∈ records, r.Printable) :
    (request.shown records).map (s.log request).line = (request.shown records).map LogRecord.listed := by
  have hmem := setting_mem_levelSettings request
  rw [← hsetting] at hmem
  refine List.map_congr_left fun r hr => ?_
  rw [Surroundings.log, hcolors]
  exact hlogger.line _ _ hmem r (hrecords r (List.mem_filter.mp hr).1)

end

/-- **The log records the run.** Nothing is reported of what cannot be read or is no program. Else the
events tell the numbers of bytes and instructions, twice, then each attempt, and at last that the machine has
halted, if no instruction failed. An attempt is told by the counter before it and the instruction there;
the first is at the start of the program, and each other is at the place where the one before it led. There
are as many as instructions were executed, and one more if it failed. The log is told the records of these
events. Without a setting from outside, it shows those of the levels that the options ask for, and
nothing else, each in its own line; behind them stands the summary, which tells as many steps as the last of
the events, or the failure. -/
theorem log_records_run (budget : Nat) {μ : Type} [Medium μ] :
    (∀ sources input name (medium : μ) l, input.Called name →
      launch budget sources input medium = some l →
        Launch.Logged budget sources input name medium l ∧
        List.Forall₂ Event.Told l.events.toList l.records) ∧
    ∀ s args request exit, s.logSetting = none → s.logger.Documented →
      s.arguments.invocation args = .run request → perform budget s args = some exit →
      ∃ l lines, launch budget s.sources request.input Unlimited.mk = some l ∧
        List.Forall₂ Event.Told l.events.toList l.records ∧
        lines = (request.shown l.records).map (s.log request).line ∧
        (s.logColors = false → (∀ r ∈ l.records, r.Printable) →
          lines = (request.shown l.records).map LogRecord.listed) ∧
        (∀ steps, l.result = .ok steps →
          (∃ pc, l.events.toList.getLast? = some (.halted steps pc)) ∧
          exit.statusText = String.join lines ++
            if request.time then timeLine (isColoured request s) steps s.elapsed else "") ∧
        ∀ chain, l.chain? = some chain →
          exit.statusText = String.join lines ++ failureLine (isColoured request s) chain := by
  refine ⟨fun sources input name medium l hname h =>
    ⟨Launch.logged_of_launch h hname, l.told_records⟩, ?_⟩
  intro s args request exit hsetting hlogger hargs hperform
  rw [perform_eq_of_run budget s hargs] at hperform
  obtain ⟨l, hl, rfl⟩ := Option.map_eq_some_iff.mp hperform
  refine ⟨l, _, hl, l.told_records, rfl,
    fun hcolors hrecords => line_of_unset hsetting hlogger hcolors request hrecords,
    fun steps hok => ⟨Launch.getLast?_events hl hok, ?_⟩, fun chain hchain => ?_⟩
  · rw [statusText_of_ok s hok, written_of_unset hsetting hlogger]
  · rw [statusText_of_error s hchain, written_of_unset hsetting hlogger]

/-- An instruction that fails is told, but is not counted. The detail asked for after `run` replaces that
asked for before it, so that no attempt is shown. -/
theorem log_records_run_in_part :
    let sources : Sources := { stdin := { bytes := [0x12, 0x45, 7] } }
    let full : Bounded := { limit := some 0 }
    let args := ["-vvv", "run", "--verbose", "-", "--time", "-v"]
    let attempt : Event := .attempt 0 (.printNumber (.literal 7))
    (∃ l, launch 2 sources .stdin full = some l ∧
      Launch.Logged 2 sources .stdin "<stdin>" full l ∧
      l.events.toList = [.decoded 3 1, .loaded "<stdin>" 3 1, attempt]) ∧
    ∃ exit l, perform 2 { sources } args = some exit ∧ launch 2 sources .stdin Unlimited.mk = some l ∧
      l.events.toList = [.decoded 3 1, .loaded "<stdin>" 3 1, attempt, .halted 1 1] ∧
      l.records.map LogRecord.text = ["program decoded bytes=3 instructions=1",
        "<stdin>: 3 bytes, 1 instructions", "step pc=0 instr=PRINTA 7", "halted steps=1 pc=1"] ∧
      exit.statusText = String.join [
        "[DEBUG tubby_core::bytecode::program] program decoded bytes=3 instructions=1\n",
        "[INFO  tubby_cli] <stdin>: 3 bytes, 1 instructions\n",
        "[DEBUG tubby_vm::machine] halted steps=1 pc=1\n", "TIME 1 instructions in 0 ms\n"] := by
  intro sources full args attempt
  constructor
  · have hlaunch : (launch 2 sources .stdin full).map (·.events.toList) =
        some [.decoded 3 1, .loaded "<stdin>" 3 1, attempt] := by decide +kernel
    obtain ⟨l, hl, hevents⟩ := Option.map_eq_some_iff.mp hlaunch
    exact ⟨l, hl, ((log_records_run 2).1 sources .stdin _ full l .stdin hl).1, hevents⟩
  · have hargs : ArgumentParser.plain.invocation args =
        .run { verbosity := 2, time := true, program := some "-" } := by decide +kernel
    have hevents : (launch 2 sources .stdin Unlimited.mk).map (fun l => (l.result.toOption, l.events.toList)) =
        some (some 1, [.decoded 3 1, .loaded "<stdin>" 3 1, attempt, .halted 1 1]) := by decide +kernel
    obtain ⟨l, hl, hend⟩ := Option.map_eq_some_iff.mp hevents
    obtain ⟨hresult, hrecorded⟩ := Prod.mk.inj hend
    have hok : l.result = .ok 1 := Machine.toOption_eq_some_iff.mp hresult
    have hperform := (perform_eq_of_run 2 { sources } hargs).trans (congrArg _ hl)
    obtain ⟨l', lines, hl', _, _, hlisted, hsummary, _⟩ :=
      (log_records_run 2 (μ := Unlimited)).2 { sources } args _ _ rfl Logger.documented_plain hargs hperform
    obtain rfl : l' = l := Option.some.inj (hl'.symm.trans hl)
    have hrecords : ∀ r ∈ l'.records, r.Printable := by
      rw [Launch.records, hrecorded]
      decide +kernel
    have hlines : lines = ["[DEBUG tubby_core::bytecode::program] program decoded bytes=3 instructions=1\n",
        "[INFO  tubby_cli] <stdin>: 3 bytes, 1 instructions\n",
        "[DEBUG tubby_vm::machine] halted steps=1 pc=1\n"] := by
      rw [hlisted rfl hrecords, Launch.records, hrecorded]
      decide +kernel
    have htime : timeLine false 1 ⟨0, 0⟩ = "TIME 1 instructions in 0 ms\n" := by decide +kernel
    refine ⟨_, l', hperform, hl', hrecorded, ?_, (hsummary 1 hok).2.trans ?_⟩
    · rw [Launch.records, hrecorded]
      decide +kernel
    · show String.join lines ++ timeLine false 1 ⟨0, 0⟩ = _
      rw [hlines, htime]
      rfl

end CommandLine

end RegisterMachine
