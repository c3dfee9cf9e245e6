import RegisterMachine.Event
import RegisterMachine.Machine
import RegisterMachine.Program.Decode

/-!
# Runs

A run attempts instructions until the machine halts or an instruction fails, in rounds: what a round does
is said once, for any way to make an attempt and to report an event. There are programs whose run never
ends, so a run is given a budget, the number of attempts it may make; an answer does not depend on the
budget, only whether there is one.
-/

namespace RegisterMachine

/-- A run that came to its end, and what was made of its reports. -/
structure RecordedRun (μ σ : Type) where
  /-- the number of instructions executed by the run, or the failure that ended it -/
  result : Except ExecutionError UInt64
  /-- the machine after the run -/
  machine : Machine μ
  /-- what was reported on the way -/
  events : σ

/-- A run that came to its end, with the events that it reported. -/
abbrev Run (μ : Type) : Type :=
  RecordedRun μ (Array Event)

/-- Where a round leads. -/
inductive Progress (μ : Type) where
  /-- there is another round to make -/
  | going (machine : Machine μ)
  /-- the run is over -/
  | ended (result : Except ExecutionError UInt64) (machine : Machine μ)

namespace Machine

variable {μ : Type}

/-- The event of an attempt; a halted machine attempts nothing. -/
def attempt? (m : Machine μ) : Option Event :=
  m.fetch?.map (.attempt m.pc)

/-- One round of a run that began when `began` instructions had been executed: the attempt is reported and
made, and so is the end of a run that did not fail. -/
def round {f : Type → Type} [Monad f] (report : Event → f Unit)
    (step : Machine μ → f (Except ExecutionError Status × Machine μ)) (began : UInt64)
    (m : Machine μ) : f (Progress μ) := do
  if let some e := m.attempt? then
    report e
  match ← step m with
  | (.error e, m') => return .ended (.error e) m'
  | (.ok .running, m') => return .going m'
  | (.ok .halted, m') =>
    report (.halted m'.steps m'.pc)
    return .ended (.ok (m'.steps - began)) m'

variable [Medium μ] {σ : Type}

/-- Goes on with a run that began when `began` instructions had been executed. What it reports is added to
`state` by `record`. -/
def runFrom (record : σ → Event → σ) (began : UInt64) (state : σ) :
    (budget : Nat) → Machine μ → Option (RecordedRun μ σ)
  | 0, _ => none
  | budget + 1, m =>
    let report (e : Event) : StateM σ Unit := modify (record · e)
    match (m.round report (fun m => pure m.step) began).run state with
    | (.going m', state) => runFrom record began state budget m'
    | (.ended result m', state) => some ⟨result, m', state⟩

/-- Runs the machine, if its run ends within the budget, and adds what it reports to `state`. -/
def runInto (record : σ → Event → σ) (state : σ) (budget : Nat) (m : Machine μ) : Option (RecordedRun μ σ) :=
  runFrom record m.steps state budget m

/-- Runs the machine, if its run ends within the budget. -/
def run (budget : Nat) (m : Machine μ) : Option (Run μ) :=
  m.runInto Array.push #[] budget

end Machine

/-- The outcome of running a program given as bytes. -/
structure EncodedRun (μ : Type) where
  /-- the number of instructions executed, or the failure -/
  result : Except Error UInt64
  /-- the sink after the run -/
  sink : Sink μ

/-- Decodes bytes and runs the program on a fresh machine, if that ends within the budget. Bytes that
are no program leave the sink as it is. -/
def runEncoded {μ : Type} [Medium μ] (budget : Nat) (bytes : List UInt8) (medium : μ) :
    Option (EncodedRun μ) :=
  match Program.decode bytes with
  | .error e => some ⟨.error (.decode e), { medium }⟩
  | .ok program =>
    ((Machine.start program medium).run budget).map fun run =>
      ⟨run.result.mapError .exec, run.machine.sink⟩

end RegisterMachine
