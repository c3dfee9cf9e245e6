import RegisterMachine.Proofs.Program.FirstFault

/-!
# Concatenated byte strings

What the decoder says about two byte strings, one after the other, is known from what it says about each
of them. A program in front only moves what follows it. A byte without opcode is the end, whatever
follows. A truncated instruction waits for as many bytes as it lacks.

## The architecture

* **`Cut.append`** — cuts of both parts are a cut of the whole.
* **`decode_append_of_error`** — behind a program, an error keeps all but its offset.
* **`exists_split_of_unknownOpcode`**, **`exists_split_of_truncated`** — where the first part ends, in each
  kind of error: `decodeFrom_eq_error_iff` with the fault taken apart.
* **`exists_instr_of_length_eq`** — a truncated instruction with the bytes that it lacked.
* **`decode_composes_over_append`** — the outcomes of the first part, one law for each.
-/

namespace RegisterMachine.Layout

open Program

/-! ## Behind a program -/

theorem Cut.append {is is' : List Instr} {blocks blocks' : List (List UInt8)} {a b : List UInt8}
    (h : Cut is blocks a) (h' : Cut is' blocks' b) :
    Cut (is ++ is') (blocks ++ blocks') (a ++ b) := by
  induction h with
  | nil => exact h'
  | cons hblock _ ih =>
    rw [List.append_assoc]
    exact .cons hblock ih

theorem Faulty.shift {start : Nat} {bytes : List UInt8} {e : DecodeError} (h : Faulty start bytes e)
    (n : Nat) : Faulty (n + start) bytes (e.shift n) := by
  cases h with
  | unknownOpcode b rest hb => exact .unknownOpcode b rest hb
  | truncated op rest hrest => exact .truncated op rest hrest

theorem decode_append_of_ok {a b : List UInt8} {p q : Program} (ha : decode a = .ok p)
    (hb : decode b = .ok q) : decode (a ++ b) = .ok (p ++ q) := by
  rw [decode_eq_ok_iff_exists_cut] at ha hb ⊢
  obtain ⟨blocks, hcut⟩ := ha
  obtain ⟨blocks', hcut'⟩ := hb
  refine ⟨blocks ++ blocks', ?_⟩
  rw [Array.toList_append]
  exact hcut.append hcut'

/-- An error behind a program is the error that it was, seen from the front of the program. -/
theorem decode_append_of_error {a b : List UInt8} {p : Program} {e : DecodeError}
    (ha : decode a = .ok p) (hb : decode b = .error e) :
    decode (a ++ b) = .error (e.shift a.length) := by
  obtain ⟨blocks, hcut⟩ := decode_eq_ok_iff_exists_cut.mp ha
  rw [decode_eq_error_iff, decodeFrom_eq_error_iff] at hb ⊢
  obtain ⟨is, blocks', front, rest, hcut', rfl, hfault⟩ := hb
  refine ⟨p.toList ++ is, blocks ++ blocks', a ++ front, rest, hcut.append hcut', ?_, ?_⟩
  · rw [List.append_assoc]
  · have hmoved := hfault.shift a.length
    rw [Nat.zero_add] at hmoved ⊢
    rw [List.length_append]
    exact hmoved

/-! ## Behind an error -/

theorem exists_split_of_unknownOpcode {a : List UInt8} {byte : UInt8} {o : Nat}
    (h : decode a = .error (.unknownOpcode byte o)) :
    ∃ is blocks front rest, Cut is blocks front ∧ a = front ++ byte :: rest ∧ o = front.length ∧
      Opcode.ofByte? byte = none := by
  rw [decode_eq_error_iff, decodeFrom_eq_error_iff] at h
  obtain ⟨is, blocks, front, back, hcut, rfl, hfault⟩ := h
  rw [Nat.zero_add] at hfault
  cases hfault with
  | unknownOpcode _ rest hbyte => exact ⟨is, blocks, front, rest, hcut, rfl, rfl, hbyte⟩

theorem exists_split_of_truncated {a : List UInt8} {op : Opcode} {o needed remaining : Nat}
    (h : decode a = .error (.truncated op o needed remaining)) :
    ∃ is blocks front rest, Cut is blocks front ∧ a = front ++ op.byte :: rest ∧ o = front.length ∧
      needed = op.recordsLength ∧ remaining = rest.length ∧ rest.length < op.recordsLength := by
  rw [decode_eq_error_iff, decodeFrom_eq_error_iff] at h
  obtain ⟨is, blocks, front, back, hcut, rfl, hfault⟩ := h
  rw [Nat.zero_add] at hfault
  cases hfault with
  | truncated _ rest hrest => exact ⟨is, blocks, front, rest, hcut, rfl, rfl, rfl, rfl, hrest⟩

theorem decode_error_of_split {is : List Instr} {blocks : List (List UInt8)} {front rest : List UInt8}
    {e : DecodeError} (hcut : Cut is blocks front) (hfault : Faulty front.length rest e) :
    decode (front ++ rest) = .error e := by
  rw [decode_eq_error_iff, decodeFrom_eq_error_iff]
  refine ⟨is, blocks, front, rest, hcut, rfl, ?_⟩
  rw [Nat.zero_add]
  exact hfault

theorem decode_append_of_unknownOpcode {a : List UInt8} {byte : UInt8} {o : Nat}
    (h : decode a = .error (.unknownOpcode byte o)) (b : List UInt8) :
    decode (a ++ b) = .error (.unknownOpcode byte o) := by
  obtain ⟨is, blocks, front, rest, hcut, rfl, rfl, hbyte⟩ := exists_split_of_unknownOpcode h
  rw [List.append_assoc]
  exact decode_error_of_split hcut (.unknownOpcode byte (rest ++ b) hbyte)

/-- A truncated instruction that still lacks bytes is truncated later. -/
theorem decode_append_of_truncated_of_lt {a b : List UInt8} {op : Opcode} {o needed remaining : Nat}
    (h : decode a = .error (.truncated op o needed remaining)) (hb : remaining + b.length < needed) :
    decode (a ++ b) = .error (.truncated op o needed (remaining + b.length)) := by
  obtain ⟨is, blocks, front, rest, hcut, rfl, rfl, rfl, rfl, _⟩ := exists_split_of_truncated h
  rw [← List.length_append] at hb ⊢
  rw [List.append_assoc]
  exact decode_error_of_split hcut (.truncated op (rest ++ b) hb)

/-- As many bytes as an opcode needs make up an instruction behind its code byte, whatever they are. -/
theorem exists_instr_of_length_eq {op : Opcode} {records : List UInt8}
    (h : records.length = op.recordsLength) :
    ∃ i : Instr, i.opcode = op ∧ Block i (op.byte :: records) := by
  obtain ⟨i, _, rfl, hrecords⟩ := exists_take?_of_length h
  exact ⟨i, rfl, records, rfl, hrecords⟩

/-- A truncated instruction that gets the bytes that it lacks is read, behind those that were read
before. -/
theorem decode_append_of_truncated_of_eq {a b : List UInt8} {op : Opcode} {o needed remaining : Nat}
    (h : decode a = .error (.truncated op o needed remaining)) (hb : remaining + b.length = needed) :
    ∃ p i, decode (a.take o) = .ok p ∧ i.opcode = op ∧ decode (a ++ b) = .ok (p.push i) := by
  obtain ⟨is, blocks, front, rest, hcut, rfl, rfl, rfl, rfl, _⟩ := exists_split_of_truncated h
  rw [← List.length_append] at hb
  obtain ⟨i, hop, hblock⟩ := exists_instr_of_length_eq hb
  refine ⟨is.toArray, i, ?_, hop, ?_⟩
  · rw [List.take_left, decode_eq_ok_iff_exists_cut]
    exact ⟨blocks, hcut⟩
  · have hlast := Cut.cons hblock .nil
    rw [List.append_nil] at hlast
    rw [decode_eq_ok_iff_exists_cut, List.append_assoc, Array.toList_push]
    exact ⟨_, hcut.append hlast⟩

/-! ## Front parts of a program -/

/-- A front part of a program is a program, or it ends inside an instruction. -/
theorem decode_of_decode_append {a b : List UInt8} {r : Program} (h : decode (a ++ b) = .ok r) :
    (∃ p, decode a = .ok p ∧ p.toList <+: r.toList) ∨
      ∃ op o needed remaining, decode a = .error (.truncated op o needed remaining) := by
  cases ha : decode a with
  | ok p =>
    refine .inl ⟨p, rfl, ?_⟩
    cases hb : decode b with
    | ok q =>
      rw [decode_append_of_ok ha hb] at h
      cases h
      rw [Array.toList_append]
      exact List.prefix_append _ _
    | error e =>
      rw [decode_append_of_error ha hb] at h
      cases h
  | error e =>
    cases e with
    | unknownOpcode byte o =>
      rw [decode_append_of_unknownOpcode ha b] at h
      cases h
    | truncated op o needed remaining => exact .inr ⟨op, o, needed, remaining, rfl⟩

/-! ## One part after the other -/

/-- **Decoding one part after the other.** If the first part is a program, the whole is that program
followed by that of the second part, or the error of the second part, further back by the length of the
first. If the first part holds a byte without opcode, so does the whole, at the same place. If it ends
inside an instruction, that instruction is truncated as long as the second part is too short for it, and
the whole is a program when the second part fills it up. So a front part of a program is itself a front
part of the instructions, or it ends inside an instruction. -/
theorem decode_composes_over_append (a b : List UInt8) :
    (∀ p, decode a = .ok p →
      (∀ q, decode b = .ok q → decode (a ++ b) = .ok (p ++ q)) ∧
      ∀ e, decode b = .error e → decode (a ++ b) = .error (e.shift a.length)) ∧
    (∀ byte offset, decode a = .error (.unknownOpcode byte offset) →
      decode (a ++ b) = .error (.unknownOpcode byte offset)) ∧
    (∀ opcode offset needed remaining,
      decode a = .error (.truncated opcode offset needed remaining) →
      remaining < needed ∧
      (b.length < needed - remaining →
        decode (a ++ b) = .error (.truncated opcode offset needed (remaining + b.length))) ∧
      (b.length = needed - remaining →
        ∃ p i, decode (a.take offset) = .ok p ∧ i.opcode = opcode ∧
          decode (a ++ b) = .ok (p.push i))) ∧
    ∀ r, decode (a ++ b) = .ok r →
      (∃ p, decode a = .ok p ∧ p.toList <+: r.toList) ∨
        ∃ opcode offset needed remaining,
          decode a = .error (.truncated opcode offset needed remaining) := by
  refine ⟨fun p ha => ⟨fun q => decode_append_of_ok ha, fun e => decode_append_of_error ha⟩,
    fun byte offset ha => decode_append_of_unknownOpcode ha b, ?_,
    fun r => decode_of_decode_append⟩
  intro opcode offset needed remaining ha
  have hlacks : remaining < needed := by
    obtain ⟨_, _, _, _, _, _, _, rfl, rfl, hrest⟩ := exists_split_of_truncated ha
    exact hrest
  refine ⟨hlacks, fun hb => ?_, fun hb => ?_⟩
  · exact decode_append_of_truncated_of_lt ha (by omega)
  · exact decode_append_of_truncated_of_eq ha (by omega)

/-- Behind three bytes of a program, a truncated instruction is three bytes further back. It lacks two
bytes, and is read when they follow, though they look like an opcode and a tag. -/
theorem decode_composes_over_append_inside_record :
    let a : List UInt8 := [0x12, 0x45, 0x10]
    let b : List UInt8 := [0x10, 0x45, 0x10]
    decode a = .ok #[.printNumber (.literal 0x10)] ∧
      decode b = .error (.truncated .inc 0 4 2) ∧
      decode (a ++ b) = .error (.truncated .inc 3 4 2) ∧
      decode (b ++ [0x12]) = .error (.truncated .inc 0 4 3) ∧
      ∃ p i, decode (b.take 0) = .ok p ∧ i.opcode = .inc ∧
        decode (b ++ [0x12, 0x45]) = .ok (p.push i) := by
  intro a b
  have ha : decode a = .ok #[.printNumber (.literal 0x10)] := by cbv
  have hb : decode b = .error (.truncated .inc 0 4 2) := by cbv
  obtain ⟨hprogram, _, _, _⟩ := decode_composes_over_append a b
  obtain ⟨_, _, hshort, _⟩ := decode_composes_over_append b [0x12]
  obtain ⟨_, _, hfilled, _⟩ := decode_composes_over_append b [0x12, 0x45]
  exact ⟨ha, hb, (hprogram _ ha).2 _ hb, (hshort _ _ _ _ hb).2.1 (by decide),
    (hfilled _ _ _ _ hb).2.2 rfl⟩

end RegisterMachine.Layout
