import RegisterMachine.Instr

/-!
# Programs

A program is a sequence of instructions, numbered from 0. Its byte form is the concatenation of
the byte forms of its instructions.
-/

namespace RegisterMachine

/-- A sequence of instructions; the index of an instruction is its address. -/
abbrev Program := Array Instr

namespace Program

/-- The bytes of a program. -/
def encode (p : Program) : List UInt8 :=
  p.toList.flatMap Instr.encode

/-- The number of bytes of a program. -/
def encodedLength (p : Program) : Nat :=
  p.toList.foldr (fun i n => i.opcode.encodedLength + n) 0

/-- The lines of a listing. -/
def listing (p : Program) : List String :=
  p.toList.map Instr.text

end Program

end RegisterMachine
