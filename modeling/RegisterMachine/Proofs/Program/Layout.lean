import Mathlib.Logic.ExistsUnique
import RegisterMachine.Program.Decode

/-!
# The layout of encoded programs

The grammar of byte strings, said apart from the decoder, and the proof that the decoder accepts
exactly what the grammar describes:

```
program      := instruction*
instruction  := opcode_byte arg_record{arity(opcode_byte)}
arg_record   := type_tag_byte value_byte
```

An opcode byte may also stand as a tag or as a value, so whether a byte starts an instruction
depends on all bytes before it.

## The architecture

* **`Record`, `Records`, `Block`, `Cut`** — the grammar, one relation for each of its levels. A `Cut`
  keeps the blocks, so that it can be said to be unique.
* **`take?_eq_some_iff`** — the records of one instruction: reading them off the front is the same
  as splitting the bytes into records and a rest.
* **`decodeFrom_append_of_cut`** — the decoder walks over a cut front part and goes on behind it, at
  the offset where that part ends. Induction on the cut, for every offset.
* **`exists_cut_of_decodeFrom`** — the converse, by induction on the recursion of the decoder.
* **`offset`, `Owns`** — where the blocks lie: every byte belongs to exactly one instruction.
-/

namespace RegisterMachine.Layout

open Program

/-! ## The grammar -/

/-- The two bytes of an operand: the tag `0x45` and the value of a literal, or any other tag and the
name of a register. -/
inductive Record : Operand → List UInt8 → Prop where
  | literal (v : UInt8) : Record (.literal v) [0x45, v]
  | register (t r : UInt8) (ht : t ≠ 0x45) : Record (.register r) [t, r]

/-- One record for each operand, in order. -/
inductive Records : List Operand → List UInt8 → Prop where
  | nil : Records [] []
  | cons {o : Operand} {os : List Operand} {record bytes : List UInt8}
      (hrecord : Record o record) (hrest : Records os bytes) : Records (o :: os) (record ++ bytes)

/-- The block of an instruction: its opcode byte followed by the records of its operands. -/
def Block (i : Instr) (block : List UInt8) : Prop :=
  ∃ records, block = i.opcode.byte :: records ∧ Records i.operands records

/-- `Cut is blocks bytes`: the byte string is cut into consecutive blocks, one for each instruction. -/
inductive Cut : List Instr → List (List UInt8) → List UInt8 → Prop where
  | nil : Cut [] [] []
  | cons {i : Instr} {is : List Instr} {block : List UInt8} {blocks : List (List UInt8)}
      {bytes : List UInt8} (hblock : Block i block) (hrest : Cut is blocks bytes) :
      Cut (i :: is) (block :: blocks) (block ++ bytes)

/-! ## Records

A record is what `Operand.ofRecord` reads: the grammar separates the two kinds of tag, the reader
asks for one of them. -/

theorem record_ofRecord (t v : UInt8) : Record (.ofRecord t v) [t, v] := by
  by_cases ht : t = 0x45
  · rw [ht]
    exact .literal v
  · rw [show Operand.ofRecord t v = .register v from if_neg ht]
    exact .register t v ht

theorem exists_of_record {o : Operand} {bytes : List UInt8} (h : Record o bytes) :
    ∃ t v, bytes = [t, v] ∧ Operand.ofRecord t v = o := by
  cases h with
  | literal v => exact ⟨0x45, v, rfl, rfl⟩
  | register t r ht => exact ⟨t, r, rfl, if_neg ht⟩

theorem length_of_records {os : List Operand} {bytes : List UInt8} (h : Records os bytes) :
    bytes.length = 2 * os.length := by
  induction h with
  | nil => rfl
  | cons hrecord _ ih =>
    obtain ⟨t, v, rfl, _⟩ := exists_of_record hrecord
    rw [List.length_append, ih]
    simp only [List.length_cons, List.length_nil]
    omega

theorem exists_of_records_one {o : Operand} {bytes : List UInt8} (h : Records [o] bytes) :
    ∃ t v, bytes = [t, v] ∧ Operand.ofRecord t v = o := by
  cases h with
  | cons hrecord hrest =>
    cases hrest
    obtain ⟨t, v, rfl, ho⟩ := exists_of_record hrecord
    exact ⟨t, v, rfl, ho⟩

theorem exists_of_records_two {o o' : Operand} {bytes : List UInt8} (h : Records [o, o'] bytes) :
    ∃ t v t' v', bytes = [t, v, t', v'] ∧ Operand.ofRecord t v = o ∧ Operand.ofRecord t' v' = o' := by
  cases h with
  | cons hrecord hrest =>
    obtain ⟨t, v, rfl, ho⟩ := exists_of_record hrecord
    obtain ⟨t', v', rfl, ho'⟩ := exists_of_records_one hrest
    exact ⟨t, v, t', v', rfl, ho, ho'⟩

/-- Reading records off the front undoes putting them there, whatever follows. -/
theorem take?_append_of_records {i : Instr} {records : List UInt8} (h : Records i.operands records)
    (rest : List UInt8) : Instr.take? i.opcode (records ++ rest) = some (i, rest) := by
  cases i with
  | inc register delta =>
    obtain ⟨t, v, t', v', rfl, rfl, rfl⟩ := exists_of_records_two h
    rfl
  | dec register delta =>
    obtain ⟨t, v, t', v', rfl, rfl, rfl⟩ := exists_of_records_two h
    rfl
  | printNumber value =>
    obtain ⟨t, v, rfl, rfl⟩ := exists_of_records_one h
    rfl
  | printChar value =>
    obtain ⟨t, v, rfl, rfl⟩ := exists_of_records_one h
    rfl
  | goto target =>
    obtain ⟨t, v, rfl, rfl⟩ := exists_of_records_one h
    rfl
  | test left right =>
    obtain ⟨t, v, t', v', rfl, rfl, rfl⟩ := exists_of_records_two h
    rfl

theorem exists_records_of_take? {op : Opcode} {i : Instr} {bytes rest : List UInt8}
    (h : Instr.take? op bytes = some (i, rest)) :
    i.opcode = op ∧ ∃ records, Records i.operands records ∧ bytes = records ++ rest := by
  have one (t v : UInt8) : Records [.ofRecord t v] [t, v] := .cons (record_ofRecord t v) .nil
  have two (t v t' v' : UInt8) : Records [.ofRecord t v, .ofRecord t' v'] [t, v, t', v'] :=
    .cons (record_ofRecord t v) (one t' v')
  unfold Instr.take? at h
  split at h <;> cases h
  · exact ⟨rfl, _, two _ _ _ _, rfl⟩
  · exact ⟨rfl, _, two _ _ _ _, rfl⟩
  · exact ⟨rfl, _, one _ _, rfl⟩
  · exact ⟨rfl, _, one _ _, rfl⟩
  · exact ⟨rfl, _, one _ _, rfl⟩
  · exact ⟨rfl, _, two _ _ _ _, rfl⟩

/-- **The records of one instruction.** Reading them off the front is splitting the bytes into
records and a rest. -/
theorem take?_eq_some_iff {op : Opcode} {i : Instr} {bytes rest : List UInt8} :
    Instr.take? op bytes = some (i, rest) ↔
      i.opcode = op ∧ ∃ records, Records i.operands records ∧ bytes = records ++ rest := by
  refine ⟨?_, ?_⟩
  · exact exists_records_of_take?
  · intro hsplit
    obtain ⟨rfl, records, hrecords, rfl⟩ := hsplit
    exact take?_append_of_records hrecords rest

/-- As many bytes as an opcode needs are the records of one instruction, with nothing left over. -/
theorem exists_take?_of_length {op : Opcode} {records : List UInt8}
    (h : records.length = op.recordsLength) :
    ∃ i, Instr.take? op records = some (i, []) ∧ i.opcode = op ∧ Records i.operands records := by
  cases htake : Instr.take? op records with
  | none =>
    have := Instr.take?_eq_none_iff.mp htake
    omega
  | some result =>
    obtain ⟨i, rest⟩ := result
    have hlen := Instr.length_of_take? htake
    obtain rfl : rest = [] := List.eq_nil_of_length_eq_zero (by omega)
    obtain ⟨hop, records', hrecords, rfl⟩ := take?_eq_some_iff.mp htake
    refine ⟨i, rfl, hop, ?_⟩
    rwa [List.append_nil]

/-! ## Blocks and cuts

The decoder takes a block off the front of its input and goes on behind it. So it walks over any cut
front part, and it accepts nothing that is not cut. -/

theorem length_of_block {i : Instr} {block : List UInt8} (h : Block i block) :
    block.length = i.opcode.encodedLength := by
  obtain ⟨records, rfl, hrecords⟩ := h
  rw [List.length_cons, length_of_records hrecords, Instr.length_operands]
  simp only [Opcode.encodedLength, Opcode.recordsLength]
  omega

theorem decodeFrom_append_of_block {i : Instr} {block : List UInt8} (h : Block i block)
    (start : Nat) (rest : List UInt8) :
    decodeFrom start (block ++ rest) = (decodeFrom (start + block.length) rest).map (i :: ·) := by
  rw [length_of_block h]
  obtain ⟨records, rfl, hrecords⟩ := h
  exact decodeFrom_cons (take?_append_of_records hrecords rest) start

/-- **The decoder walks over a cut front part.** What it says about the whole is what it says about
the rest, read at the offset behind the front part, with the instructions of that part in front. -/
theorem decodeFrom_append_of_cut {is : List Instr} {blocks : List (List UInt8)} {front : List UInt8}
    (h : Cut is blocks front) (start : Nat) (rest : List UInt8) :
    decodeFrom start (front ++ rest) = (decodeFrom (start + front.length) rest).map (is ++ ·) := by
  induction h generalizing start with
  | nil =>
    rw [List.nil_append, List.length_nil, Nat.add_zero]
    cases decodeFrom start rest <;> rfl
  | cons hblock _ ih =>
    rw [List.append_assoc, decodeFrom_append_of_block hblock, ih, List.length_append, ← Nat.add_assoc]
    cases decodeFrom _ rest <;> rfl

theorem decodeFrom_of_cut {is : List Instr} {blocks : List (List UInt8)} {bytes : List UInt8}
    (h : Cut is blocks bytes) (start : Nat) : decodeFrom start bytes = .ok is := by
  have hwalk := decodeFrom_append_of_cut h start []
  rw [List.append_nil, decodeFrom_nil] at hwalk
  rw [hwalk]
  show Except.ok (is ++ []) = .ok is
  rw [List.append_nil]

/-- **Nothing else is accepted.** Induction on the recursion of the decoder: each instruction it
reads is a block off the front of the bytes that are left. -/
theorem exists_cut_of_decodeFrom {start : Nat} {bytes : List UInt8} {is : List Instr}
    (h : decodeFrom start bytes = .ok is) : ∃ blocks, Cut is blocks bytes := by
  fun_induction decodeFrom start bytes generalizing is with
  | case1 start =>
    cases h
    exact ⟨[], .nil⟩
  | case2 start b rest hop => cases h
  | case3 start b rest op hop htake => cases h
  | case4 start b rest op hop i rest' htake is' hdecode ih =>
    cases h
    -- the instruction just read is a block in front of the cut of what follows it
    obtain ⟨blocks, hcut⟩ := ih hdecode
    obtain ⟨rfl, records, hrecords, rfl⟩ := take?_eq_some_iff.mp htake
    rw [← Opcode.byte_of_ofByte? hop]
    exact ⟨_ :: blocks, .cons ⟨records, rfl, hrecords⟩ hcut⟩
  | case5 start b rest op hop i rest' htake e hdecode ih => cases h

theorem decode_eq_ok_iff {bytes : List UInt8} {p : Program} :
    decode bytes = .ok p ↔ decodeFrom 0 bytes = .ok p.toList := by
  unfold decode
  cases decodeFrom 0 bytes with
  | ok is =>
    refine ⟨?_, ?_⟩
    · intro h
      cases h
      rfl
    · intro h
      cases h
      rfl
  | error e => exact ⟨nofun, nofun⟩

theorem decode_eq_ok_iff_exists_cut {bytes : List UInt8} {p : Program} :
    decode bytes = .ok p ↔ ∃ blocks, Cut p.toList blocks bytes := by
  rw [decode_eq_ok_iff]
  refine ⟨?_, ?_⟩
  · exact exists_cut_of_decodeFrom
  · intro hcut
    obtain ⟨blocks, hcut⟩ := hcut
    exact decodeFrom_of_cut hcut 0

/-- A byte string is cut for at most one list of instructions, since the decoder finds it. -/
theorem Cut.instrs_unique {is is' : List Instr} {blocks blocks' : List (List UInt8)}
    {bytes : List UInt8} (h : Cut is blocks bytes) (h' : Cut is' blocks' bytes) : is = is' := by
  have hdecode := decodeFrom_of_cut h 0
  rw [decodeFrom_of_cut h' 0] at hdecode
  exact (Except.ok.inj hdecode).symm

theorem Cut.uncons {i : Instr} {is : List Instr} {blocks : List (List UInt8)} {bytes : List UInt8}
    (h : Cut (i :: is) blocks bytes) :
    ∃ block blocks' rest, blocks = block :: blocks' ∧ bytes = block ++ rest ∧
      Block i block ∧ Cut is blocks' rest := by
  cases h with
  | cons hblock hrest => exact ⟨_, _, _, rfl, rfl, hblock, hrest⟩

/-- For the same instructions the blocks are the same too, because their lengths are. -/
theorem Cut.blocks_unique {is : List Instr} {blocks blocks' : List (List UInt8)}
    {bytes : List UInt8} (h : Cut is blocks bytes) (h' : Cut is blocks' bytes) :
    blocks = blocks' := by
  induction h generalizing blocks' with
  | nil =>
    cases h'
    rfl
  | cons hblock hrest ih =>
    obtain ⟨block', blocks'', rest', rfl, hbytes, hblock', hrest'⟩ := h'.uncons
    -- equally long blocks at the front of the same bytes are equal, and so is what follows them
    have hlen := (length_of_block hblock).trans (length_of_block hblock').symm
    obtain ⟨rfl, rfl⟩ := List.append_inj hbytes hlen
    rw [ih hrest']

/-! ## Where the blocks lie -/

/-- The offset of the instruction with index `j`: the bytes of all instructions before it. -/
def offset (is : List Instr) (j : Nat) : Nat :=
  (is.take j).foldr (fun i n => i.opcode.encodedLength + n) 0

/-- Byte `k` belongs to the instruction with index `j`. -/
def Owns (is : List Instr) (j k : Nat) : Prop :=
  j < is.length ∧ offset is j ≤ k ∧ k < offset is (j + 1)

@[simp] theorem offset_zero (is : List Instr) : offset is 0 = 0 := rfl

@[simp] theorem offset_cons_succ (i : Instr) (is : List Instr) (j : Nat) :
    offset (i :: is) (j + 1) = i.opcode.encodedLength + offset is j := rfl

theorem offset_length (p : Program) : offset p.toList p.size = p.encodedLength := by
  unfold offset Program.encodedLength
  rw [← Array.length_toList, List.take_length]

theorem Cut.length_eq {is : List Instr} {blocks : List (List UInt8)} {bytes : List UInt8}
    (h : Cut is blocks bytes) : bytes.length = offset is is.length := by
  induction h with
  | nil => rfl
  | cons hblock _ ih =>
    rw [List.length_append, length_of_block hblock, ih, List.length_cons, offset_cons_succ]

theorem Cut.length_blocks {is : List Instr} {blocks : List (List UInt8)} {bytes : List UInt8}
    (h : Cut is blocks bytes) : blocks.length = is.length := by
  induction h with
  | nil => rfl
  | cons _ _ ih => rw [List.length_cons, List.length_cons, ih]

/-- The block of an instruction stands at its offset. -/
theorem Cut.block_at {is : List Instr} {blocks : List (List UInt8)} {bytes : List UInt8}
    (h : Cut is blocks bytes) {j : Nat} {i : Instr} (hj : is[j]? = some i) :
    ∃ block, blocks[j]? = some block ∧ Block i block ∧
      (bytes.drop (offset is j)).take i.opcode.encodedLength = block := by
  induction h generalizing j with
  | nil => cases hj
  | cons hblock hrest ih =>
    cases j with
    | zero =>
      cases hj
      refine ⟨_, rfl, hblock, ?_⟩
      rw [offset_zero, List.drop_zero, ← length_of_block hblock, List.take_left]
    | succ j =>
      obtain ⟨block', hget, hblock', htake⟩ := ih hj
      refine ⟨block', hget, hblock', ?_⟩
      rw [offset_cons_succ, ← length_of_block hblock, ← List.drop_drop, List.drop_left]
      exact htake

theorem offset_mono (is : List Instr) {j j' : Nat} (h : j ≤ j') : offset is j ≤ offset is j' := by
  induction is generalizing j j' with
  | nil => simp [offset]
  | cons i is ih =>
    cases j with
    | zero => exact Nat.zero_le _
    | succ j =>
      cases j' with
      | zero => omega
      | succ j' =>
        rw [offset_cons_succ, offset_cons_succ]
        exact Nat.add_le_add_left (ih (by omega)) _

theorem Owns.unique {is : List Instr} {j j' k : Nat} (h : Owns is j k) (h' : Owns is j' k) :
    j = j' := by
  obtain ⟨_, hle, hlt⟩ := h
  obtain ⟨_, hle', hlt'⟩ := h'
  -- of two different owners the first ends before the second begins
  rcases Nat.lt_trichotomy j j' with hj | hj | hj
  · have := offset_mono is (show j + 1 ≤ j' from hj)
    omega
  · exact hj
  · have := offset_mono is (show j' + 1 ≤ j from hj)
    omega

theorem exists_owns {is : List Instr} {k : Nat} (hk : k < offset is is.length) :
    ∃ j, Owns is j k := by
  induction is generalizing k with
  | nil => exact absurd hk (by simp [offset])
  | cons i is ih =>
    rw [List.length_cons, offset_cons_succ] at hk
    rcases Nat.lt_or_ge k i.opcode.encodedLength with hfirst | hlater
    · refine ⟨0, by simp, by simp, ?_⟩
      rw [offset_cons_succ, offset_zero]
      exact hfirst
    · obtain ⟨j, hj, hle, hlt⟩ := ih (k := k - i.opcode.encodedLength) (by omega)
      refine ⟨j + 1, by simpa using hj, ?_, ?_⟩
      · rw [offset_cons_succ]
        omega
      · rw [offset_cons_succ]
        omega

/-! ## The decoder accepts exactly the grammar -/

/-- **The decoder and the grammar.** A byte string decodes to a program exactly when it is cut into
the blocks of its instructions. There is no other cut of the byte string, for this or any other list of
instructions. The blocks have the length of the byte string together, each stands at its offset, and
each byte belongs to exactly one instruction. -/
theorem decode_accepts_grammar (bytes : List UInt8) (p : Program) :
    (decode bytes = .ok p ↔ ∃ blocks, Cut p.toList blocks bytes) ∧
    ∀ blocks, Cut p.toList blocks bytes →
      (∀ is blocks', Cut is blocks' bytes → is = p.toList ∧ blocks' = blocks) ∧
      p.encodedLength = bytes.length ∧
      blocks.length = p.size ∧
      (∀ j i, p[j]? = some i → ∃ block, blocks[j]? = some block ∧ Block i block ∧
        (bytes.drop (offset p.toList j)).take i.opcode.encodedLength = block) ∧
      (∀ k < bytes.length, ∃! j, Owns p.toList j k) := by
  refine ⟨decode_eq_ok_iff_exists_cut, ?_⟩
  intro blocks hcut
  have hunique : ∀ is blocks', Cut is blocks' bytes → is = p.toList ∧ blocks' = blocks := by
    intro is blocks' hcut'
    obtain rfl := hcut'.instrs_unique hcut
    exact ⟨rfl, hcut'.blocks_unique hcut⟩
  have hlength : p.encodedLength = bytes.length := by
    rw [hcut.length_eq, Array.length_toList, offset_length]
  have hblocks : blocks.length = p.size := by
    rw [hcut.length_blocks, Array.length_toList]
  refine ⟨hunique, hlength, hblocks, ?_, ?_⟩
  · intro j i hj
    rw [← Array.getElem?_toList] at hj
    exact hcut.block_at hj
  · intro k hk
    rw [hcut.length_eq] at hk
    obtain ⟨j, hj⟩ := exists_owns hk
    exact ⟨j, hj, fun j' hj' => hj'.unique hj⟩

/-- A cut in which the literal tag stands as a value, and opcode bytes stand as tags and values. -/
theorem decode_accepts_grammar_disguised :
    decode [0x15, 0x45, 0x45, 0x10, 0x12, 0x12, 0x14, 0x12] =
        .ok #[.test (.literal 0x45) (.register 0x12), .printNumber (.register 0x12)] ∧
      ∃! j, Owns [.test (.literal 0x45) (.register 0x12), .printNumber (.register 0x12)] j 5 := by
  have htest : Block (.test (.literal 0x45) (.register 0x12)) [0x15, 0x45, 0x45, 0x10, 0x12] :=
    ⟨_, rfl, .cons (.literal 0x45) (.cons (.register 0x10 0x12 (by decide)) .nil)⟩
  have hprint : Block (.printNumber (.register 0x12)) [0x12, 0x14, 0x12] :=
    ⟨_, rfl, .cons (.register 0x14 0x12 (by decide)) .nil⟩
  have hcut := Cut.cons htest (.cons hprint .nil)
  obtain ⟨hdecode, hparts⟩ := decode_accepts_grammar [0x15, 0x45, 0x45, 0x10, 0x12, 0x12, 0x14, 0x12]
    #[.test (.literal 0x45) (.register 0x12), .printNumber (.register 0x12)]
  obtain ⟨_, _, _, _, howner⟩ := hparts _ hcut
  exact ⟨hdecode.mpr ⟨_, hcut⟩, howner 5 (by decide)⟩

end RegisterMachine.Layout
