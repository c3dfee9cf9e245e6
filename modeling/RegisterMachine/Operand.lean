import RegisterMachine.Text

/-!
# Operands

An operand is a literal byte or the name of one of the registers 0 to 255. In a program it is a
record of two bytes, a tag and a value. The tag `0x45` marks a literal and every other tag a
register; registers are written with the tag `0x56`.
-/

namespace RegisterMachine

/-- An operand as it stands in an instruction. -/
inductive Operand where
  /-- the value itself -/
  | literal (value : UInt8)
  /-- the content of the register at the time of execution -/
  | register (id : UInt8)
deriving DecidableEq, Repr

namespace Operand

/-- The tag of a literal record. -/
def literalTag : UInt8 := 0x45

/-- The tag that register records are written with. -/
def registerTag : UInt8 := 0x56

/-- Reads a record: any tag but that of a literal names a register. -/
def ofRecord (tag value : UInt8) : Operand :=
  if tag = literalTag then .literal value else .register value

/-- The tag that an operand is written with. -/
def tag : Operand → UInt8
  | .literal _ => literalTag
  | .register _ => registerTag

/-- The value byte of an operand, whatever its kind. -/
def valueByte : Operand → UInt8
  | .literal value => value
  | .register id => id

/-- The record of an operand, as bytes. -/
def encode (o : Operand) : List UInt8 :=
  [o.tag, o.valueByte]

/-- The operand in a listing: `5` for a literal, `r5` for a register. -/
def text : Operand → String
  | .literal value => Text.decimal value.toNat
  | .register id => "r" ++ Text.decimal id.toNat

/-- Reads records two bytes at a time; a single last byte is no record. -/
def ofRecords : List UInt8 → List Operand
  | tag :: value :: rest => ofRecord tag value :: ofRecords rest
  | _ => []

@[simp] theorem ofRecord_tag_valueByte (o : Operand) : ofRecord o.tag o.valueByte = o := by
  cases o <;> simp [ofRecord, tag, valueByte, literalTag, registerTag]

@[simp] theorem length_encode (o : Operand) : o.encode.length = 2 := rfl

end Operand

end RegisterMachine
