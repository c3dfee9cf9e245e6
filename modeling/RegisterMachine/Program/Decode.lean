import RegisterMachine.Program
import RegisterMachine.Program.DecodeError

/-!
# Decoding

`Program.decode` reads a byte string as a program, one instruction after the other, and stops at the
first fault. A byte string with a fault yields no part of a program, only the error.
-/

namespace RegisterMachine

namespace Program

/-- Reads instructions up to the end of `bytes`, whose first byte has the offset `offset` in the
whole byte string. -/
def decodeFrom (offset : Nat) (bytes : List UInt8) : Except DecodeError (List Instr) :=
  match bytes with
  | [] => .ok []
  | b :: rest =>
    match Opcode.ofByte? b with
    | none => .error (.unknownOpcode b offset)
    | some op =>
      match _h : Instr.take? op rest with
      | none => .error (.truncated op offset op.recordsLength rest.length)
      | some (i, rest') =>
        match decodeFrom (offset + op.encodedLength) rest' with
        | .ok is => .ok (i :: is)
        | .error e => .error e
  termination_by bytes.length
  decreasing_by
    have := Instr.length_of_take? ‹_›
    simp only [List.length_cons]
    omega

/-- The program that a byte string encodes, or the first fault in it. -/
def decode (bytes : List UInt8) : Except DecodeError Program :=
  match decodeFrom 0 bytes with
  | .ok is => .ok is.toArray
  | .error e => .error e

/-! ### One instruction at a time -/

@[simp] theorem decodeFrom_nil (offset : Nat) : decodeFrom offset [] = .ok [] := by
  rw [decodeFrom]

theorem decodeFrom_unknown {b : UInt8} (h : Opcode.ofByte? b = none) (offset : Nat)
    (rest : List UInt8) :
    decodeFrom offset (b :: rest) = .error (.unknownOpcode b offset) := by
  rw [decodeFrom]
  simp [h]

theorem decodeFrom_truncated {op : Opcode} {rest : List UInt8}
    (h : rest.length < op.recordsLength) (offset : Nat) :
    decodeFrom offset (op.byte :: rest) =
      .error (.truncated op offset op.recordsLength rest.length) := by
  rw [decodeFrom]
  simp only [Opcode.ofByte?_byte]
  split
  · rfl
  · next hs => rw [Instr.take?_eq_none_iff.2 h] at hs; cases hs

theorem decodeFrom_cons {op : Opcode} {i : Instr} {rest rest' : List UInt8}
    (h : Instr.take? op rest = some (i, rest')) (offset : Nat) :
    decodeFrom offset (op.byte :: rest) =
      (decodeFrom (offset + op.encodedLength) rest').map (i :: ·) := by
  rw [decodeFrom]
  simp only [Opcode.ofByte?_byte]
  split
  · next hs => rw [h] at hs; cases hs
  · next hs =>
    rw [h] at hs
    cases hs
    cases decodeFrom (offset + op.encodedLength) rest' <;> rfl

end Program

end RegisterMachine
