import RegisterMachine.Text

/-!
# Machine words

A word has 64 bits and is read as a signed number; its arithmetic wraps around. Words are
register contents, register names and jump targets alike.
-/

namespace RegisterMachine

/-- A 64-bit signed number with wrapping arithmetic. -/
abbrev Word := Int64

namespace Word

/-- The word with the unsigned value of a byte. -/
def ofByte (b : UInt8) : Word :=
  Int64.ofNat b.toNat

/-- The signed decimal text of a word. -/
def decimal (w : Word) : String :=
  Text.signedDecimal w.toInt

/-- The character whose code point is the word: there is one unless the word is negative, a
surrogate, or above the last code point. -/
def char? (w : Word) : Option Char :=
  if 0 ≤ w.toInt ∧ w.toInt.toNat.isValidChar then some (Char.ofNat w.toInt.toNat) else none

theorem toInt_ofByte (b : UInt8) : (ofByte b).toInt = b.toNat := by
  have := b.toNat_lt
  simp only [ofByte]
  rw [Int64.toInt_ofNat_of_lt (by omega)]

theorem ofByte_inj {b b' : UInt8} : ofByte b = ofByte b' ↔ b = b' := by
  refine ⟨fun h => ?_, congrArg ofByte⟩
  have hint := congrArg Int64.toInt h
  rw [toInt_ofByte, toInt_ofByte] at hint
  exact UInt8.toNat_inj.mp (Int.ofNat.inj hint)

/-- Operands can name the registers 0 to 255 only. -/
theorem ofByte_bounds (b : UInt8) : 0 ≤ ofByte b ∧ ofByte b ≤ 255 := by
  have hbyte := b.toNat_lt
  rw [Int64.le_iff_toInt_le, Int64.le_iff_toInt_le, toInt_ofByte]
  show (0 : Int) ≤ b.toNat ∧ (b.toNat : Int) ≤ 255
  omega

end Word

end RegisterMachine
