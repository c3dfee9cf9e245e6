import RegisterMachine.Proofs.Program.Layout

/-!
# The first fault

A byte string is rejected because of one instruction: everything in front of it is a program, and
it itself cannot be read. The error tells where it stands and what is wrong with it.

## The architecture

* **`Faulty`** — the bytes at hand begin with an instruction that cannot be read, and which error
  that is.
* **`decodeFrom_eq_error_iff`** — the decoder rejects exactly the byte strings that split into a cut
  front part and a faulty rest. The front part is walked over by `decodeFrom_append_of_cut`; the
  converse is an induction on the recursion of the decoder.
* **`IsFirstFault`** — the same, said with offsets into the whole byte string alone, and
  **`decode_error_iff_isFirstFault`**.
-/

namespace RegisterMachine.Layout

open Program

/-! ## The opcode table -/

/-- The bytes without opcode are those outside `0x10..=0x15`. -/
theorem ofByte?_eq_none_iff {b : UInt8} :
    Opcode.ofByte? b = none ↔ ¬ (0x10 ≤ b ∧ b ≤ 0x15) := by
  refine ⟨?_, ?_⟩
  · intro h hrange
    -- six bytes are in the range, and each of them has an opcode
    have hbyte : b = 0x10 ∨ b = 0x11 ∨ b = 0x12 ∨ b = 0x13 ∨ b = 0x14 ∨ b = 0x15 := by
      simp only [UInt8.le_iff_toNat_le, ← UInt8.toNat_inj] at hrange ⊢
      simp only [UInt8.reduceToNat] at hrange ⊢
      omega
    rcases hbyte with rfl | rfl | rfl | rfl | rfl | rfl <;> exact absurd h nofun
  · intro hrange
    cases hop : Opcode.ofByte? b with
    | none => rfl
    | some op =>
      rw [← Opcode.byte_of_ofByte? hop] at hrange
      exact absurd (by cases op <;> decide) hrange

/-! ## Instructions that cannot be read -/

/-- `Faulty start bytes e`: the instruction at the front of `bytes`, at the offset `start`, cannot be
read, and `e` tells why. -/
inductive Faulty (start : Nat) : List UInt8 → DecodeError → Prop where
  | unknownOpcode (b : UInt8) (rest : List UInt8) (hb : Opcode.ofByte? b = none) :
      Faulty start (b :: rest) (.unknownOpcode b start)
  | truncated (op : Opcode) (rest : List UInt8) (hrest : rest.length < op.recordsLength) :
      Faulty start (op.byte :: rest) (.truncated op start op.recordsLength rest.length)

theorem Faulty.offset_eq {start : Nat} {bytes : List UInt8} {e : DecodeError}
    (h : Faulty start bytes e) : e.offset = start := by
  cases h <;> rfl

theorem decodeFrom_of_faulty {start : Nat} {bytes : List UInt8} {e : DecodeError}
    (h : Faulty start bytes e) : decodeFrom start bytes = .error e := by
  cases h with
  | unknownOpcode b rest hb => exact decodeFrom_unknown hb start rest
  | truncated op rest hrest => exact decodeFrom_truncated hrest start

/-- A rejected byte string goes wrong at one instruction. Induction on the recursion of the decoder:
an instruction that was read goes to the front part. -/
theorem exists_faulty_of_decodeFrom {start : Nat} {bytes : List UInt8} {e : DecodeError}
    (h : decodeFrom start bytes = .error e) :
    ∃ is blocks front rest, Cut is blocks front ∧ bytes = front ++ rest ∧
      Faulty (start + front.length) rest e := by
  fun_induction decodeFrom start bytes with
  | case1 start => cases h
  | case2 start b rest hop =>
    cases h
    exact ⟨[], [], [], b :: rest, .nil, rfl, .unknownOpcode b rest hop⟩
  | case3 start b rest op hop htake =>
    cases h
    rw [← Opcode.byte_of_ofByte? hop]
    exact ⟨[], [], [], _, .nil, rfl, .truncated op rest (Instr.take?_eq_none_iff.mp htake)⟩
  | case4 start b rest op hop i rest' htake is' hdecode ih => cases h
  | case5 start b rest op hop i rest' htake e' hdecode ih =>
    cases h
    -- the instruction that was read becomes the first block of the front part
    obtain ⟨is, blocks, front, back, hcut, rfl, hfault⟩ := ih hdecode
    obtain ⟨rfl, records, hrecords, rfl⟩ := take?_eq_some_iff.mp htake
    have hblock : Block i (i.opcode.byte :: records) := ⟨records, rfl, hrecords⟩
    refine ⟨_, _, _, back, .cons hblock hcut, ?_, ?_⟩
    · rw [← Opcode.byte_of_ofByte? hop, List.append_assoc, List.cons_append]
    · rw [List.length_append, length_of_block hblock, ← Nat.add_assoc]
      exact hfault

/-- **Rejected byte strings.** They are a cut front part followed by an instruction that cannot be
read, and the error is that of this instruction. -/
theorem decodeFrom_eq_error_iff {start : Nat} {bytes : List UInt8} {e : DecodeError} :
    decodeFrom start bytes = .error e ↔
      ∃ is blocks front rest, Cut is blocks front ∧ bytes = front ++ rest ∧
        Faulty (start + front.length) rest e := by
  refine ⟨?_, ?_⟩
  · exact exists_faulty_of_decodeFrom
  · intro hsplit
    obtain ⟨is, blocks, front, rest, hcut, rfl, hfault⟩ := hsplit
    rw [decodeFrom_append_of_cut hcut, decodeFrom_of_faulty hfault]
    rfl

theorem decode_eq_error_iff {bytes : List UInt8} {e : DecodeError} :
    decode bytes = .error e ↔ decodeFrom 0 bytes = .error e := by
  unfold decode
  cases decodeFrom 0 bytes with
  | ok is => exact ⟨nofun, nofun⟩
  | error e' =>
    refine ⟨?_, ?_⟩
    · intro h
      cases h
      rfl
    · intro h
      cases h
      rfl

/-! ## The fault in the whole byte string -/

/-- What an error says about the byte string that it was found in, apart from being the first. -/
def Describes (bytes : List UInt8) : DecodeError → Prop
  | .unknownOpcode byte offset =>
    bytes[offset]? = some byte ∧ ¬ (0x10 ≤ byte ∧ byte ≤ 0x15)
  | .truncated opcode offset needed remaining =>
    bytes[offset]? = some opcode.byte ∧ needed = 2 * opcode.arity ∧
      remaining = bytes.length - offset - 1 ∧ remaining < needed

/-- The error is about an instruction of the byte string, all bytes in front of it are a program, and
what it says about this instruction is true. -/
structure IsFirstFault (bytes : List UInt8) (e : DecodeError) : Prop where
  inside : e.offset < bytes.length
  accepted : ∃ p, decode (bytes.take e.offset) = .ok p
  describes : Describes bytes e

theorem describes_iff_faulty {front : List UInt8} {b : UInt8} {rest : List UInt8} {e : DecodeError}
    (ho : e.offset = front.length) :
    Describes (front ++ b :: rest) e ↔ Faulty front.length (b :: rest) e := by
  have hget : (front ++ b :: rest)[front.length]? = some b := by simp
  have hlen : (front ++ b :: rest).length - front.length - 1 = rest.length := by
    rw [List.length_append, List.length_cons]
    omega
  cases e with
  | unknownOpcode byte offset =>
    obtain rfl : offset = front.length := ho
    show _ = _ ∧ _ ↔ _
    rw [hget, Option.some.injEq, ← ofByte?_eq_none_iff]
    refine ⟨?_, ?_⟩
    · intro hunknown
      obtain ⟨rfl, hb⟩ := hunknown
      exact .unknownOpcode b rest hb
    · intro h
      cases h with
      | unknownOpcode _ _ hb => exact ⟨rfl, hb⟩
  | truncated op offset needed remaining =>
    obtain rfl : offset = front.length := ho
    show _ = _ ∧ _ = _ ∧ _ = _ ∧ _ ↔ _
    rw [hget, Option.some.injEq, hlen]
    refine ⟨?_, ?_⟩
    · intro htruncated
      obtain ⟨rfl, rfl, rfl, hrest⟩ := htruncated
      exact .truncated op rest hrest
    · intro h
      cases h with
      | truncated _ _ hrest => exact ⟨rfl, rfl, rfl, hrest⟩

theorem decode_error_iff_isFirstFault {bytes : List UInt8} {e : DecodeError} :
    decode bytes = .error e ↔ IsFirstFault bytes e := by
  rw [decode_eq_error_iff, decodeFrom_eq_error_iff]
  refine ⟨?_, ?_⟩
  · intro h
    obtain ⟨is, blocks, front, rest, hcut, rfl, hfault⟩ := h
    rw [Nat.zero_add] at hfault
    have ho : e.offset = front.length := hfault.offset_eq
    -- a faulty instruction has at least its first byte
    obtain ⟨b, back, rfl⟩ : ∃ b back, rest = b :: back := by
      cases hfault with
      | unknownOpcode b back _ => exact ⟨b, back, rfl⟩
      | truncated op back _ => exact ⟨op.byte, back, rfl⟩
    refine ⟨?_, ⟨is.toArray, ?_⟩, (describes_iff_faulty ho).mpr hfault⟩
    · rw [ho, List.length_append, List.length_cons]
      omega
    · rw [ho, List.take_left, decode_eq_ok_iff_exists_cut]
      exact ⟨blocks, hcut⟩
  · intro h
    obtain ⟨hinside, ⟨p, haccepted⟩, hdescribes⟩ := h
    -- split the byte string at the offset of the error
    obtain ⟨front, b, rest, rfl, ho⟩ : ∃ front b rest, bytes = front ++ b :: rest ∧
        e.offset = front.length := by
      refine ⟨bytes.take e.offset, bytes[e.offset], bytes.drop (e.offset + 1), ?_, ?_⟩
      · rw [← List.drop_eq_getElem_cons hinside, List.take_append_drop]
      · rw [List.length_take]
        omega
    rw [ho, List.take_left] at haccepted
    obtain ⟨blocks, hcut⟩ := decode_eq_ok_iff_exists_cut.mp haccepted
    refine ⟨p.toList, blocks, front, b :: rest, hcut, rfl, ?_⟩
    rw [Nat.zero_add]
    exact (describes_iff_faulty ho).mp hdescribes

/-- That a byte is an unknown opcode depends on the bytes up to it alone. A truncated instruction is
different: there it is the end of the byte string that is at fault. -/
theorem isFirstFault_of_take_eq {bytes other : List UInt8} {byte : UInt8} {o : Nat}
    (h : IsFirstFault bytes (.unknownOpcode byte o)) (htake : other.take (o + 1) = bytes.take (o + 1)) :
    IsFirstFault other (.unknownOpcode byte o) := by
  obtain ⟨hinside, haccepted, hget, hbyte⟩ := h
  have hget' : other[o]? = some byte := by
    rw [← List.getElem?_take_of_lt (Nat.lt_succ_self o), htake,
      List.getElem?_take_of_lt (Nat.lt_succ_self o)]
    exact hget
  have hfront : other.take o = bytes.take o := by
    have := congrArg (List.take o) htake
    rwa [List.take_take, List.take_take, Nat.min_eq_left (Nat.le_succ o)] at this
  refine ⟨(List.getElem?_eq_some_iff.mp hget').1, ?_, hget', hbyte⟩
  rw [show DecodeError.offset (.unknownOpcode byte o) = o from rfl, hfront]
  exact haccepted

/-! ## Errors are exact, and the first one wins -/

/-- **Errors are exact, and the first one wins.** The decoder answers with an error exactly if that is
the first fault of the byte string. A rejected byte string has one first fault, at one offset. An
unknown opcode stays the answer whatever bytes follow it. -/
theorem decode_fails_with_first_fault (bytes : List UInt8) :
    (∀ e, decode bytes = .error e ↔ IsFirstFault bytes e) ∧
    ((∃ e, decode bytes = .error e) →
      (∃! e, IsFirstFault bytes e) ∧ ∃! o, ∃ e, IsFirstFault bytes e ∧ e.offset = o) ∧
    (∀ byte o other, decode bytes = .error (.unknownOpcode byte o) →
      other.take (o + 1) = bytes.take (o + 1) → decode other = .error (.unknownOpcode byte o)) := by
  -- each of them is the answer of the decoder
  have hunique : ∀ e e', IsFirstFault bytes e → IsFirstFault bytes e' → e = e' := by
    intro e e' h h'
    rw [← decode_error_iff_isFirstFault] at h h'
    exact Except.error.inj (h.symm.trans h')
  refine ⟨fun e => decode_error_iff_isFirstFault, ?_, ?_⟩
  · intro hrejected
    obtain ⟨e, he⟩ := hrejected
    have hfault := decode_error_iff_isFirstFault.mp he
    refine ⟨⟨e, hfault, fun e' h' => hunique e' e h' hfault⟩, e.offset, ⟨e, hfault, rfl⟩, ?_⟩
    intro o h
    obtain ⟨e', h', rfl⟩ := h
    rw [hunique e' e h' hfault]
  · intro byte o other h htake
    rw [decode_error_iff_isFirstFault] at h ⊢
    exact isFirstFault_of_take_eq h htake

/-- A literal tag where an opcode is due: the truncated instruction behind it is not reported. -/
theorem decode_fails_with_first_fault_tag :
    decode [0x14, 0x45, 0x10, 0x45, 0x10] = .error (.unknownOpcode 0x45 3) ∧
      decode [0x14, 0x45, 0x10, 0x45, 0x15, 0xFF] = .error (.unknownOpcode 0x45 3) ∧
      ∃! e, IsFirstFault [0x14, 0x45, 0x10, 0x45, 0x10] e := by
  have h : decode [0x14, 0x45, 0x10, 0x45, 0x10] = .error (.unknownOpcode 0x45 3) := by cbv
  have hfirst := decode_fails_with_first_fault [0x14, 0x45, 0x10, 0x45, 0x10]
  exact ⟨h, hfirst.2.2 0x45 3 _ h rfl, (hfirst.2.1 ⟨_, h⟩).1⟩

end RegisterMachine.Layout
