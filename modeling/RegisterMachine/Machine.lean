import RegisterMachine.Effect
import RegisterMachine.ExecutionError
import RegisterMachine.Program
import RegisterMachine.Sink

/-!
# The machine

A machine executes a program one instruction at a time. It halts when its counter leaves the program.
An attempt that fails changes nothing but the sink: the counter stays at the failing instruction, and
the next attempt tries that instruction again.
-/

namespace RegisterMachine

/-- A machine can go on or has left its program. -/
inductive Status where
  /-- there is an instruction at the counter -/
  | running
  /-- the counter is outside the program -/
  | halted
deriving DecidableEq, Repr

/-- A program in execution. -/
structure Machine (μ : Type) where
  program : Program
  registers : RegisterFile := ∅
  /-- the address of the next instruction -/
  pc : Nat := 0
  /-- the number of instructions executed so far, modulo `2 ^ 64` -/
  steps : UInt64 := 0
  /-- the sink that output goes to -/
  sink : Sink μ
deriving DecidableEq

namespace Machine

/-- The machine at the start of a program, with no register written and nothing printed. -/
def start {μ : Type} (program : Program) (medium : μ) : Machine μ :=
  { program, sink := { medium } }

/-- The largest address. -/
def maxAddress : Nat := UInt64.size - 1

/-- The address `n` places further on, but not beyond the largest address. -/
def advance (pc n : Nat) : Nat :=
  min (pc + n) maxAddress

variable {μ : Type}

/-- The next instruction, if the counter is inside the program. -/
def fetch? (m : Machine μ) : Option Instr :=
  m.program[m.pc]?

/-- The counter is outside the program. -/
def isHalted (m : Machine μ) : Bool :=
  m.program.size ≤ m.pc

/-- Whether the machine can go on. -/
def status (m : Machine μ) : Status :=
  if m.isHalted then .halted else .running

/-- The counter after an instruction. A jump to a negative address leaves the program at its end. -/
def follow (m : Machine μ) : Transfer → Nat
  | .next => advance m.pc 1
  | .skip => advance m.pc 2
  | .jump target => if target < 0 then m.program.size else target.toInt.toNat

/-- The machine after an instruction with the given effect, apart from the sink. -/
def commit (m : Machine μ) (effect : Effect) : Machine μ :=
  { m with registers := effect.registers, pc := m.follow effect.transfer, steps := m.steps + 1 }

variable [Medium μ]

/-- Sends the output of an instruction to the sink, if there is any. -/
def send (m : Machine μ) (output : Option (List UInt8)) : Except ExecutionError Unit × Machine μ :=
  match output with
  | none => (.ok (), m)
  | some data =>
    match m.sink.emit data with
    | (.ok (), sink) => (.ok (), { m with sink })
    | (.error fault, sink) => (.error (.output fault), { m with sink })

/-- Executes one instruction: its output is sent first, and the rest of its effect takes place only if
that worked out. -/
def execute (m : Machine μ) (i : Instr) : Except ExecutionError Status × Machine μ :=
  match i.effect m.registers with
  | .error value => (.error (.invalidCodePoint value m.pc), m)
  | .ok effect =>
    match m.send effect.output with
    | (.error e, m') => (.error e, m')
    | (.ok (), m') => (.ok (m'.commit effect).status, m'.commit effect)

/-- Attempts the next instruction. A halted machine answers that it is halted and stays as it is. -/
def step (m : Machine μ) : Except ExecutionError Status × Machine μ :=
  match m.fetch? with
  | none => (.ok .halted, m)
  | some i => m.execute i

end Machine

end RegisterMachine
