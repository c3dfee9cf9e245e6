import RegisterMachine.Machine.Run

/-!
# Sessions

A machine can be used call by call: a single step, a number of steps, a run, and in between changes
of the medium that its output goes to.
-/

namespace RegisterMachine

/-- Something to do with a machine. -/
inductive Call (μ : Type) where
  /-- attempt one instruction -/
  | step
  /-- attempt instructions as long as the machine can go on, but at most `count` -/
  | steps (count : Nat)
  /-- attempt instructions as long as the machine can go on -/
  | run
  /-- change the medium -/
  | adjust (change : μ → μ)

/-- What a call answers. -/
inductive Answer where
  /-- nothing -/
  | silent
  /-- whether the machine can go on -/
  | status (status : Status)
  /-- the number of instructions executed by a run -/
  | executed (count : UInt64)
  /-- an instruction failed -/
  | failed (e : ExecutionError)
deriving DecidableEq, Repr

/-- The answer of a single attempt. -/
def Answer.ofStep : Except ExecutionError Status → Answer
  | .ok s => .status s
  | .error e => .failed e

/-- The answer of a run. -/
def Answer.ofRun : Except ExecutionError UInt64 → Answer
  | .ok count => .executed count
  | .error e => .failed e

namespace Machine

variable {μ : Type} [Medium μ]

/-- Attempts instructions as long as the machine can go on, but at most `count`, and answers what the
last attempt did; `last` is the answer if there is no attempt. -/
def stepsUpTo (last : Answer) : (count : Nat) → Machine μ → Answer × Machine μ
  | 0, m => (last, m)
  | count + 1, m =>
    match m.step with
    | (.ok .running, m') => stepsUpTo (.status .running) count m'
    | (result, m') => (.ofStep result, m')

/-- Performs a call. There is no answer only if a run does not end within the budget. -/
def perform (budget : Nat) (m : Machine μ) : Call μ → Option (Answer × Machine μ)
  | .step => some (.ofStep m.step.1, m.step.2)
  | .steps count => some (m.stepsUpTo .silent count)
  | .run => (m.run budget).map fun r => (.ofRun r.result, r.machine)
  | .adjust change => some (.silent, { m with sink := m.sink.adjust change })

/-- Performs calls one after the other. -/
def performAll (budget : Nat) (m : Machine μ) : List (Call μ) → Option (List Answer × Machine μ)
  | [] => some ([], m)
  | call :: calls =>
    match m.perform budget call with
    | none => none
    | some (answer, m') =>
      (performAll budget m' calls).map fun (answers, m'') => (answer :: answers, m'')

end Machine

end RegisterMachine
