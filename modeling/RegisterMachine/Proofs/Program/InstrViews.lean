import RegisterMachine.Proofs.Program.Spelling

/-!
# Views of an instruction

An instruction can be taken apart into its opcode and its operands and put together again, and it can be
read from the bytes of its records and written as bytes. All of these go through the opcodes one by one, so
each could get an operand wrong that the others get right.

* **`ofOperands?_eq_some_iff`**, **`exists_ofOperands?_iff`** — putting together undoes taking apart.
* **`Layout.ofRecords_of_records`**, **`Layout.getElem?_of_records`** — operands read from records, as a
  whole and by their places.
* **`take?_eq_ofOperands?`** — reading records is putting together the operands read from them.
* **`views_agree`** — all views together.
-/

namespace RegisterMachine

/-! ## Operands from records -/

namespace Layout

theorem ofRecords_of_records {os : List Operand} {bytes : List UInt8} (h : Records os bytes) :
    Operand.ofRecords bytes = os := by
  induction h with
  | nil => rfl
  | cons hrecord _ ih =>
    obtain ⟨t, v, rfl, rfl⟩ := exists_of_record hrecord
    exact congrArg (Operand.ofRecord t v :: ·) ih

/-- The record of an operand stands at twice the place of the operand. -/
theorem getElem?_of_records {os : List Operand} {bytes : List UInt8} (h : Records os bytes) {k : Nat}
    (hk : k < os.length) :
    ∃ tag value, bytes[2 * k]? = some tag ∧ bytes[2 * k + 1]? = some value ∧
      os[k]? = some (.ofRecord tag value) := by
  induction h generalizing k with
  | nil => simp at hk
  | cons hrecord _ ih =>
    obtain ⟨t, v, rfl, rfl⟩ := exists_of_record hrecord
    cases k with
    | zero => exact ⟨t, v, rfl, rfl, rfl⟩
    | succ k =>
      obtain ⟨tag, value, htag, hvalue, hoperand⟩ := ih (k := k) (by simpa using hk)
      refine ⟨tag, value, ?_, ?_, by simpa using hoperand⟩
      · rw [show 2 * (k + 1) = 2 * k + 2 from by omega]
        simpa using htag
      · rw [show 2 * (k + 1) + 1 = 2 * k + 1 + 2 from by omega]
        simpa using hvalue

end Layout

namespace Instr

/-! ## Opcode and operands -/

/-- Only the parts of an instruction can be put together to it. -/
theorem ofOperands?_eq_some_iff {op : Opcode} {os : List Operand} {i : Instr} :
    ofOperands? op os = some i ↔ i.opcode = op ∧ i.operands = os := by
  constructor
  · intro h
    unfold ofOperands? at h
    split at h <;> cases h <;> exact ⟨rfl, rfl⟩
  · rintro ⟨rfl, rfl⟩
    exact ofOperands?_opcode_operands i

theorem exists_ofOperands?_iff {op : Opcode} {os : List Operand} :
    (∃ i, ofOperands? op os = some i) ↔ os.length = op.arity := by
  constructor
  · rintro ⟨i, h⟩
    obtain ⟨rfl, rfl⟩ := ofOperands?_eq_some_iff.mp h
    exact length_operands i
  · intro h
    match os, h with
    | [], h => cases op <;> cases h
    | [o], h => cases op <;> first | exact ⟨_, rfl⟩ | cases h
    | [o, o'], h => cases op <;> first | exact ⟨_, rfl⟩ | cases h
    | _ :: _ :: _ :: _, h => cases op <;> cases h

/-! ## Records -/

/-- Reading the records of an instruction is reading its operands and putting them together. -/
theorem take?_eq_ofOperands? {op : Opcode} {records : List UInt8}
    (h : records.length = op.recordsLength) :
    take? op records = (ofOperands? op (Operand.ofRecords records)).map (·, []) := by
  obtain ⟨i, htake, rfl, hrecords⟩ := Layout.exists_take?_of_length h
  rw [htake, Layout.ofRecords_of_records hrecords, ofOperands?_opcode_operands]
  rfl

theorem take?_operands_encode (i : Instr) :
    take? i.opcode (i.operands.flatMap Operand.encode) = some (i, []) := by
  have h := Layout.take?_append_of_records (Layout.records_encode i.operands) []
  rwa [List.append_nil] at h

/-! ## All views -/

/-- **The views of an instruction agree.** An opcode and operands make an instruction exactly if they are as
many as the opcode takes, and these are then the opcode and the operands of the instruction; every
instruction is made of its own. From as many bytes as the records of an opcode take, the instruction
that is read is that made of the operands read two bytes at a time, each from the two bytes at its
place, and nothing is left over. To write an instruction is to append its code byte and its records to
what was there, as many bytes as its opcode tells; the code byte leads back to the opcode and the records
to the instruction. -/
theorem views_agree :
    (∀ op os, ((∃ i, ofOperands? op os = some i) ↔ os.length = op.arity) ∧
      ∀ i, ofOperands? op os = some i → i.opcode = op ∧ i.operands = os) ∧
    (∀ i : Instr, ofOperands? i.opcode i.operands = some i) ∧
    (∀ op records, records.length = 2 * op.arity →
      take? op records = (ofOperands? op (Operand.ofRecords records)).map (·, []) ∧
      ∃ i, take? op records = some (i, []) ∧ i.operands.length = op.arity ∧
        ∀ k < op.arity, ∃ tag value, records[2 * k]? = some tag ∧ records[2 * k + 1]? = some value ∧
          i.operands[k]? = some (.ofRecord tag value)) ∧
    ∀ buffer (i : Instr), ∃ records,
      encodeOnto buffer i = buffer ++ i.opcode.byte :: records ∧
      (i.opcode.byte :: records).length = i.opcode.encodedLength ∧
      Opcode.ofByte? i.opcode.byte = some i.opcode ∧ take? i.opcode records = some (i, []) := by
  refine ⟨fun op os => ⟨exists_ofOperands?_iff, fun i => ofOperands?_eq_some_iff.mp⟩,
    ofOperands?_opcode_operands, fun op records hlen => ?_, fun buffer i => ?_⟩
  · refine ⟨take?_eq_ofOperands? hlen, ?_⟩
    obtain ⟨i, htake, rfl, hrecords⟩ := Layout.exists_take?_of_length hlen
    refine ⟨i, htake, length_operands i, fun k hk => ?_⟩
    rw [← length_operands] at hk
    exact Layout.getElem?_of_records hrecords hk
  · exact ⟨_, encodeOnto_eq_append buffer i, length_encode i, Opcode.ofByte?_byte i.opcode,
      take?_operands_encode i⟩

/-- Records in which the tag of a literal stands as a value, and a code byte as a tag. -/
theorem views_agree_disguised :
    let records : List UInt8 := [0x15, 0x45, 0x45, 0x10]
    let i : Instr := .test (.register 0x45) (.literal 0x10)
    records.length = 2 * Opcode.test.arity ∧ take? .test records = some (i, []) ∧
      ofOperands? .test (Operand.ofRecords records) = some i ∧ i.opcode = .test ∧
      i.operands = Operand.ofRecords records ∧
      ∃ tag value, records[2]? = some tag ∧ records[3]? = some value ∧
        i.operands[1]? = some (.ofRecord tag value) := by
  intro records i
  obtain ⟨hparts, _, hrecords, _⟩ := views_agree
  have hlen : records.length = 2 * Opcode.test.arity := rfl
  have hmade : ofOperands? .test (Operand.ofRecords records) = some i := rfl
  obtain ⟨hopcode, hoperands⟩ := (hparts .test (Operand.ofRecords records)).2 i hmade
  obtain ⟨hread, i', htake, _, hplaces⟩ := hrecords .test records hlen
  rw [hmade] at hread
  rw [hread] at htake
  cases htake
  exact ⟨hlen, hread, hmade, hopcode, hoperands, hplaces 1 (by decide)⟩

end Instr

end RegisterMachine
