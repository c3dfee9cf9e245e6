/-!
# Opcodes

The six operations with their code bytes `0x10` to `0x15`, mnemonics and operand counts. An
instruction occupies its code byte and one two-byte record for each operand.
-/

namespace RegisterMachine

/-- The operation an instruction performs. -/
inductive Opcode where
  /-- add to a register -/
  | inc
  /-- subtract from a register -/
  | dec
  /-- print a number in decimal -/
  | printNumber
  /-- print the character of a code point -/
  | printChar
  /-- continue elsewhere -/
  | goto
  /-- skip an instruction if two values are equal -/
  | test
deriving DecidableEq, Repr

namespace Opcode

/-- All opcodes, by increasing code byte. -/
def all : List Opcode :=
  [inc, dec, printNumber, printChar, goto, test]

/-- The code byte of an opcode. -/
def byte : Opcode → UInt8
  | inc => 0x10
  | dec => 0x11
  | printNumber => 0x12
  | printChar => 0x13
  | goto => 0x14
  | test => 0x15

/-- The opcode with a given code byte. -/
def ofByte? (b : UInt8) : Option Opcode :=
  match b with
  | 0x10 => some inc
  | 0x11 => some dec
  | 0x12 => some printNumber
  | 0x13 => some printChar
  | 0x14 => some goto
  | 0x15 => some test
  | _ => none

/-- The number of operands of an opcode. -/
def arity : Opcode → Nat
  | inc | dec | test => 2
  | printNumber | printChar | goto => 1

/-- The number of bytes that the operand records of an opcode take. -/
def recordsLength (op : Opcode) : Nat :=
  2 * op.arity

/-- The number of bytes of a whole instruction with this opcode. -/
def encodedLength (op : Opcode) : Nat :=
  1 + op.recordsLength

/-- The name of an opcode in listings and messages. -/
def mnemonic : Opcode → String
  | inc => "INC"
  | dec => "DEC"
  | printNumber => "PRINTA"
  | printChar => "PRINTB"
  | goto => "GOTO"
  | test => "TEST"

@[simp] theorem ofByte?_byte (op : Opcode) : ofByte? op.byte = some op := by
  cases op <;> rfl

theorem byte_of_ofByte? {b : UInt8} {op : Opcode} (h : ofByte? b = some op) : op.byte = b := by
  unfold ofByte? at h
  split at h <;> simp_all [byte] <;> subst h <;> rfl

end Opcode

end RegisterMachine
