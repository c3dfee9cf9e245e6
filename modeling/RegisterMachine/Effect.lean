import RegisterMachine.Instr
import RegisterMachine.RegisterFile

/-!
# Effects of instructions

What an instruction does, as a function of the register file alone: the register file after it, the
text it prints, and where execution goes on. No instruction both writes a register and prints.
-/

namespace RegisterMachine

/-- Where execution goes on after an instruction. -/
inductive Transfer where
  /-- at the next instruction -/
  | next
  /-- at the instruction after the next one -/
  | skip
  /-- at an address -/
  | jump (target : Word)
deriving DecidableEq, Repr

/-- What an instruction does. -/
structure Effect where
  /-- the register file after the instruction -/
  registers : RegisterFile
  /-- the bytes it prints, if it is an instruction that prints -/
  output : Option (List UInt8) := none
  /-- where execution goes on -/
  transfer : Transfer := .next
deriving DecidableEq

/-- The effect of an instruction on a register file. The only instruction without one is that which
prints the character of a value without character; the answer is that value. -/
def Instr.effect (registers : RegisterFile) : Instr → Except Word Effect
  | inc register delta =>
    .ok { registers := registers.add (registers.resolve register) (registers.resolve delta) }
  | dec register delta =>
    .ok { registers := registers.sub (registers.resolve register) (registers.resolve delta) }
  | printNumber value =>
    .ok { registers, output := some (Text.utf8 (registers.resolve value).decimal) }
  | printChar value =>
    match (registers.resolve value).char? with
    | some c => .ok { registers, output := some (String.utf8EncodeChar c) }
    | none => .error (registers.resolve value)
  | goto target =>
    .ok { registers, transfer := .jump (registers.resolve target) }
  | test left right =>
    .ok {
      registers
      transfer := if registers.resolve left = registers.resolve right then .skip else .next }

end RegisterMachine
