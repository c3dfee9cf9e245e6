import RegisterMachine.Opcode
import RegisterMachine.Text

/-!
# Decoding errors

Why a byte string is no program. Both errors name the offset of the instruction at which reading
stopped; a truncated instruction also tells how many operand bytes it needs and how many are there.
-/

namespace RegisterMachine

/-- The first fault of a byte string that is no program. -/
inductive DecodeError where
  /-- the byte at `offset` is not a code byte -/
  | unknownOpcode (byte : UInt8) (offset : Nat)
  /-- the instruction at `offset` needs `needed` operand bytes and only `remaining` are left -/
  | truncated (opcode : Opcode) (offset needed remaining : Nat)
deriving DecidableEq, Repr

namespace DecodeError

/-- The offset of the code byte at fault. -/
def offset : DecodeError → Nat
  | unknownOpcode _ offset => offset
  | truncated _ offset _ _ => offset

/-- The error seen from `n` bytes further to the front. -/
def shift (n : Nat) : DecodeError → DecodeError
  | unknownOpcode byte offset => unknownOpcode byte (n + offset)
  | truncated opcode offset needed remaining => truncated opcode (n + offset) needed remaining

/-- The text of the error. -/
def message : DecodeError → String
  | unknownOpcode byte offset =>
    "unknown opcode 0x" ++ Text.hexByte byte ++ " at byte offset " ++ Text.decimal offset
  | truncated opcode offset needed remaining =>
    "truncated " ++ opcode.mnemonic ++ " at byte offset " ++ Text.decimal offset ++ ": needs " ++
      Text.decimal needed ++ " argument bytes, " ++ Text.decimal remaining ++ " left"

end DecodeError

end RegisterMachine
