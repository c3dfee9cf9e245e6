import RegisterMachine.Opcode
import RegisterMachine.Operand

/-!
# Instructions

An instruction is an opcode with exactly as many operands as the opcode takes. `ofOperands?` and
`opcode`, `operands` go between the two views; `encode` writes the bytes of an instruction and
`take?` reads its records off the front of a byte string.
-/

namespace RegisterMachine

/-- One instruction of a program. -/
inductive Instr where
  /-- adds `delta` to the register whose id is the value of `register` -/
  | inc (register delta : Operand)
  /-- subtracts `delta` from the register whose id is the value of `register` -/
  | dec (register delta : Operand)
  /-- prints `value` in decimal -/
  | printNumber (value : Operand)
  /-- prints the character with code point `value` -/
  | printChar (value : Operand)
  /-- continues at the instruction with index `target` -/
  | goto (target : Operand)
  /-- skips the next instruction if both values are equal -/
  | test (left right : Operand)
deriving DecidableEq, Repr

namespace Instr

/-- The opcode of an instruction. -/
def opcode : Instr → Opcode
  | inc .. => .inc
  | dec .. => .dec
  | printNumber _ => .printNumber
  | printChar _ => .printChar
  | goto _ => .goto
  | test .. => .test

/-- The operands of an instruction, in the order of their records. -/
def operands : Instr → List Operand
  | inc register delta | dec register delta => [register, delta]
  | printNumber value | printChar value => [value]
  | goto target => [target]
  | test left right => [left, right]

/-- The instruction with an opcode and operands, if their number is that of the opcode. -/
def ofOperands? : Opcode → List Operand → Option Instr
  | .inc, [register, delta] => some (inc register delta)
  | .dec, [register, delta] => some (dec register delta)
  | .printNumber, [value] => some (printNumber value)
  | .printChar, [value] => some (printChar value)
  | .goto, [target] => some (goto target)
  | .test, [left, right] => some (test left right)
  | _, _ => none

/-- Reads the records of an opcode off the front of `bytes`: the instruction and what follows
it, or nothing if there are too few bytes. -/
def take? (op : Opcode) (bytes : List UInt8) : Option (Instr × List UInt8) :=
  match op, bytes with
  | .inc, t :: v :: t' :: v' :: rest => some (inc (.ofRecord t v) (.ofRecord t' v'), rest)
  | .dec, t :: v :: t' :: v' :: rest => some (dec (.ofRecord t v) (.ofRecord t' v'), rest)
  | .printNumber, t :: v :: rest => some (printNumber (.ofRecord t v), rest)
  | .printChar, t :: v :: rest => some (printChar (.ofRecord t v), rest)
  | .goto, t :: v :: rest => some (goto (.ofRecord t v), rest)
  | .test, t :: v :: t' :: v' :: rest => some (test (.ofRecord t v) (.ofRecord t' v'), rest)
  | _, _ => none

/-- The bytes of an instruction: its code byte, then the records of its operands. -/
def encode (i : Instr) : List UInt8 :=
  i.opcode.byte :: i.operands.flatMap Operand.encode

/-- Appends the bytes of an instruction to those already in `buffer`: the code byte first, then one
record after the other. -/
def encodeOnto (buffer : List UInt8) (i : Instr) : List UInt8 :=
  i.operands.foldl (fun bytes o => bytes ++ o.encode) (buffer ++ [i.opcode.byte])

/-- The instruction in a listing: mnemonic, a blank, and the operands with commas between. -/
def text (i : Instr) : String :=
  i.opcode.mnemonic ++ " " ++ ", ".intercalate (i.operands.map Operand.text)

theorem length_operands (i : Instr) : i.operands.length = i.opcode.arity := by
  cases i <;> rfl

@[simp] theorem ofOperands?_opcode_operands (i : Instr) :
    ofOperands? i.opcode i.operands = some i := by
  cases i <;> rfl

theorem length_encode (i : Instr) : i.encode.length = i.opcode.encodedLength := by
  cases i <;> rfl

theorem encodeOnto_eq_append (buffer : List UInt8) (i : Instr) :
    encodeOnto buffer i = buffer ++ i.encode := by
  rw [encodeOnto, List.foldl_append_eq_append, List.append_assoc, ← List.flatMap_def]
  rfl

/-- Reading takes exactly the records of the opcode. -/
theorem length_of_take? {op : Opcode} {bytes rest : List UInt8} {i : Instr}
    (h : take? op bytes = some (i, rest)) : bytes.length = op.recordsLength + rest.length := by
  unfold take? at h
  split at h <;> simp_all [Opcode.recordsLength, Opcode.arity] <;> omega

/-- Records can be read exactly when there are enough bytes. -/
theorem take?_eq_none_iff {op : Opcode} {bytes : List UInt8} :
    take? op bytes = none ↔ bytes.length < op.recordsLength := by
  rcases bytes with _ | ⟨_, _ | ⟨_, _ | ⟨_, _ | ⟨_, _⟩⟩⟩⟩ <;> cases op <;>
    simp [take?, Opcode.recordsLength, Opcode.arity]

end Instr

end RegisterMachine
