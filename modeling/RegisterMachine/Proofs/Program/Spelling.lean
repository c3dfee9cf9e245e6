import Mathlib.Data.List.Basic
import RegisterMachine.Proofs.Program.Layout

/-!
# The spelling of register tags

A byte string says more than the program in it: a register may be marked by any tag but that of a
literal. That choice is all that decoding forgets. Which bytes are tags depends on all bytes before
them, so it is said through the layout.

## The architecture

* **`Respelled`** — two byte strings of one length that differ at most in the spelling of registers, at
  given positions. `respelled_append_iff` takes it apart along a split of the first.
* **`record_iff_respelled`, `records_iff_respelled`, `block_iff_respelled`, `cut_iff_respelled`** — at
  each level of the grammar, a byte string of the same meaning is a respelled one.
* **`cut_encode`** — what the encoder writes is cut, and its tags are `0x45` and `0x56` only.
-/

namespace RegisterMachine.Layout

open Program

/-! ## Tags and spellings -/

/-- Byte `k` is the tag of an operand. -/
def TagAt (is : List Instr) (k : Nat) : Prop :=
  ∃ j i m, is[j]? = some i ∧ m < i.opcode.arity ∧ k = offset is j + 1 + 2 * m

/-- Both byte strings have the same length, and differ at most at the positions `tags`, where neither
has the tag of a literal. -/
def Respelled (tags : Nat → Prop) (a b : List UInt8) : Prop :=
  a.length = b.length ∧
    ∀ k, a[k]? ≠ b[k]? → tags k ∧ a[k]? ≠ some 0x45 ∧ b[k]? ≠ some 0x45

theorem Respelled.congr {tags tags' : Nat → Prop} {a b : List UInt8} (h : Respelled tags a b)
    (htags : ∀ k < a.length, tags k → tags' k) : Respelled tags' a b := by
  obtain ⟨hlen, hdiff⟩ := h
  refine ⟨hlen, fun k hk => ?_⟩
  obtain ⟨htag, ha, hb⟩ := hdiff k hk
  -- behind the end of both there is no difference
  have hinside : k < a.length := by
    rcases Nat.lt_or_ge k a.length with hlt | hge
    · exact hlt
    · rw [List.getElem?_eq_none hge, List.getElem?_eq_none (hlen ▸ hge)] at hk
      exact absurd rfl hk
  exact ⟨htags k hinside htag, ha, hb⟩

theorem respelled_iff_eq {tags : Nat → Prop} {a b : List UInt8} (h : ∀ k < a.length, ¬ tags k) :
    Respelled tags a b ↔ b = a := by
  refine ⟨?_, ?_⟩
  · intro hr
    have hnone : Respelled (fun _ => False) a b := hr.congr h
    apply List.ext_getElem?
    intro k
    by_contra hk
    exact (hnone.2 k (Ne.symm hk)).1
  · intro heq
    subst heq
    exact ⟨rfl, fun k hk => absurd rfl hk⟩

/-- A respelled concatenation is a concatenation of respelled parts. -/
theorem respelled_append_iff {tags : Nat → Prop} {a b c : List UInt8} :
    Respelled tags (a ++ b) c ↔
      ∃ a' b', c = a' ++ b' ∧ Respelled tags a a' ∧ Respelled (fun k => tags (a.length + k)) b b' := by
  refine ⟨?_, ?_⟩
  · intro hrespelled
    obtain ⟨hlen, hdiff⟩ := hrespelled
    rw [List.length_append] at hlen
    refine ⟨c.take a.length, c.drop a.length, (List.take_append_drop ..).symm, ⟨?_, ?_⟩, ?_, ?_⟩
    · rw [List.length_take]
      omega
    · intro k hk
      rcases Nat.lt_or_ge k a.length with hlt | hge
      · have h := hdiff k
        rw [List.getElem?_append_left hlt] at h
        rw [List.getElem?_take_of_lt hlt] at hk ⊢
        exact h hk
      · have htake : (c.take a.length).length ≤ k := by
          rw [List.length_take]
          omega
        rw [List.getElem?_eq_none hge, List.getElem?_eq_none htake] at hk
        exact absurd rfl hk
    · rw [List.length_drop]
      omega
    · intro k hk
      have h := hdiff (a.length + k)
      rw [List.getElem?_append_right (Nat.le_add_right ..), Nat.add_sub_cancel_left] at h
      rw [List.getElem?_drop] at hk ⊢
      exact h hk
  · intro hparts
    obtain ⟨a', b', rfl, ⟨hlen, hdiff⟩, hlen', hdiff'⟩ := hparts
    have hlength : (a ++ b).length = (a' ++ b').length := by
      rw [List.length_append, List.length_append, hlen, hlen']
    refine ⟨hlength, fun k hk => ?_⟩
    rcases Nat.lt_or_ge k a.length with hlt | hge
    · rw [List.getElem?_append_left hlt, List.getElem?_append_left (hlen ▸ hlt)] at hk ⊢
      exact hdiff k hk
    · rw [List.getElem?_append_right hge, List.getElem?_append_right (hlen ▸ hge), ← hlen] at hk ⊢
      obtain ⟨htag, hb⟩ := hdiff' _ hk
      have hk' : a.length + (k - a.length) = k := by omega
      rw [hk'] at htag
      exact ⟨htag, hb⟩

/-! ## Respelling at each level of the grammar

Each level is put together by appending, so `respelled_append_iff` carries the fact from one level to
the next. -/

theorem ofRecord_eq_iff {t v t' v' : UInt8} :
    Operand.ofRecord t' v' = Operand.ofRecord t v ↔
      v' = v ∧ (t ≠ t' → t ≠ 0x45 ∧ t' ≠ 0x45) := by
  unfold Operand.ofRecord Operand.literalTag
  by_cases ht : t = 0x45 <;> by_cases ht' : t' = 0x45 <;> simp_all [eq_comm]

theorem record_iff_respelled {o : Operand} {a b : List UInt8} (h : Record o a) :
    Record o b ↔ Respelled (· = 0) a b := by
  obtain ⟨t, v, rfl, rfl⟩ := exists_of_record h
  refine ⟨?_, ?_⟩
  · intro h'
    obtain ⟨t', v', rfl, heq⟩ := exists_of_record h'
    obtain ⟨rfl, htag⟩ := ofRecord_eq_iff.mp heq
    refine ⟨rfl, fun k hk => ?_⟩
    cases k with
    | zero =>
      obtain ⟨ht, ht'⟩ := htag fun h => hk (congrArg some h)
      exact ⟨rfl, fun h => ht (Option.some.inj h), fun h => ht' (Option.some.inj h)⟩
    | succ k => exact absurd rfl hk
  · intro hrespelled
    obtain ⟨hlen, hdiff⟩ := hrespelled
    obtain ⟨t', v', rfl⟩ : ∃ t' v', b = [t', v'] := List.length_eq_two.mp hlen.symm
    have htag : t ≠ t' → t ≠ 0x45 ∧ t' ≠ 0x45 := by
      intro h
      obtain ⟨_, ht, ht'⟩ := hdiff 0 fun heq => h (Option.some.inj heq)
      exact ⟨fun heq => ht (congrArg some heq), fun heq => ht' (congrArg some heq)⟩
    have hvalue : v' = v := by
      by_contra h
      exact absurd (hdiff 1 fun heq => h (Option.some.inj heq).symm).1 (by decide)
    rw [← ofRecord_eq_iff.mpr ⟨hvalue, htag⟩]
    exact record_ofRecord t' v'

theorem records_cons_iff {o : Operand} {os : List Operand} {bytes : List UInt8} :
    Records (o :: os) bytes ↔
      ∃ record rest, bytes = record ++ rest ∧ Record o record ∧ Records os rest := by
  refine ⟨?_, ?_⟩
  · intro h
    cases h with
    | cons hrecord hrest => exact ⟨_, _, rfl, hrecord, hrest⟩
  · intro hparts
    obtain ⟨record, rest, rfl, hrecord, hrest⟩ := hparts
    exact .cons hrecord hrest

theorem records_iff_respelled {os : List Operand} {a b : List UInt8} (h : Records os a) :
    Records os b ↔ Respelled (fun k => ∃ m < os.length, k = 2 * m) a b := by
  induction h generalizing b with
  | nil =>
    rw [respelled_iff_eq (by simp)]
    refine ⟨?_, ?_⟩
    · intro h
      cases h
      rfl
    · intro heq
      subst heq
      exact .nil
  | @cons o os record bytes hrecord hrest ih =>
    -- the tag of the first record is at 0, and those of the others are two places further on
    have hlen : record.length = 2 := by
      obtain ⟨t, v, rfl, _⟩ := exists_of_record hrecord
      rfl
    rw [records_cons_iff, respelled_append_iff]
    refine ⟨?_, ?_⟩
    · intro hparts
      obtain ⟨record', rest', rfl, hrecord', hrest'⟩ := hparts
      refine ⟨record', rest', rfl, ?_, (ih.mp hrest').congr ?_⟩
      · refine ((record_iff_respelled hrecord).mp hrecord').congr ?_
        intro k _ hk
        subst hk
        exact ⟨0, Nat.succ_pos _, rfl⟩
      · intro k _ htag
        obtain ⟨m, hm, rfl⟩ := htag
        exact ⟨m + 1, Nat.succ_lt_succ hm, by omega⟩
    · intro hparts
      obtain ⟨record', rest', rfl, hrecord', hrest'⟩ := hparts
      refine ⟨record', rest', rfl, ?_, ih.mpr (hrest'.congr ?_)⟩
      · refine (record_iff_respelled hrecord).mpr (hrecord'.congr ?_)
        intro k hk htag
        obtain ⟨m, _, rfl⟩ := htag
        omega
      · intro k _ htag
        obtain ⟨m, hm, hkm⟩ := htag
        rw [List.length_cons] at hm
        exact ⟨m - 1, by omega, by omega⟩

theorem block_iff_respelled {i : Instr} {a b : List UInt8} (h : Block i a) :
    Block i b ↔ Respelled (fun k => ∃ m < i.opcode.arity, k = 1 + 2 * m) a b := by
  obtain ⟨records, rfl, hrecords⟩ := h
  rw [← Instr.length_operands, ← List.singleton_append, respelled_append_iff]
  refine ⟨?_, ?_⟩
  · intro hsplit
    obtain ⟨records', rfl, hrecords'⟩ := hsplit
    refine ⟨[i.opcode.byte], records', rfl, ⟨rfl, fun k hk => absurd rfl hk⟩, ?_⟩
    refine ((records_iff_respelled hrecords).mp hrecords').congr ?_
    intro k _ htag
    obtain ⟨m, hm, rfl⟩ := htag
    exact ⟨m, hm, rfl⟩
  · intro hparts
    obtain ⟨code, records', rfl, hcode, hrecords'⟩ := hparts
    have hnone : ∀ k < [i.opcode.byte].length, ¬ ∃ m < i.operands.length, k = 1 + 2 * m := by
      intro k hk htag
      obtain ⟨m, _, rfl⟩ := htag
      rw [List.length_singleton] at hk
      omega
    -- the code byte is no tag, so it is the same in both
    rw [respelled_iff_eq hnone] at hcode
    rw [hcode]
    refine ⟨records', rfl, (records_iff_respelled hrecords).mpr (hrecords'.congr ?_)⟩
    intro k _ htag
    obtain ⟨m, hm, hkm⟩ := htag
    rw [List.length_singleton] at hkm
    exact ⟨m, hm, by omega⟩

/-! ## Respelling whole byte strings -/

theorem tagAt_cons_first {i : Instr} {is : List Instr} {k : Nat} (hk : k < i.opcode.encodedLength) :
    TagAt (i :: is) k ↔ ∃ m < i.opcode.arity, k = 1 + 2 * m := by
  refine ⟨?_, ?_⟩
  · intro htag
    obtain ⟨j, i', m, hj, hm, rfl⟩ := htag
    cases j with
    | zero =>
      cases hj
      exact ⟨m, hm, by rw [offset_zero, Nat.zero_add]⟩
    | succ j =>
      rw [offset_cons_succ] at hk
      omega
  · intro htag
    obtain ⟨m, hm, rfl⟩ := htag
    have hoffset : 1 + 2 * m = offset (i :: is) 0 + 1 + 2 * m := by
      rw [offset_zero, Nat.zero_add]
    exact ⟨0, i, m, rfl, hm, hoffset⟩

theorem tagAt_cons_later {i : Instr} {is : List Instr} {k : Nat} :
    TagAt (i :: is) (i.opcode.encodedLength + k) ↔ TagAt is k := by
  refine ⟨?_, ?_⟩
  · intro htag
    obtain ⟨j, i', m, hj, hm, heq⟩ := htag
    cases j with
    | zero =>
      -- the first instruction has no tag behind its own end
      cases hj
      rw [offset_zero] at heq
      simp only [Opcode.encodedLength, Opcode.recordsLength] at heq
      omega
    | succ j =>
      rw [offset_cons_succ] at heq
      exact ⟨j, i', m, hj, hm, by omega⟩
  · intro htag
    obtain ⟨j, i', m, hj, hm, rfl⟩ := htag
    refine ⟨j + 1, i', m, hj, hm, ?_⟩
    rw [offset_cons_succ]
    omega

theorem exists_cut_cons_iff {i : Instr} {is : List Instr} {bytes : List UInt8} :
    (∃ blocks, Cut (i :: is) blocks bytes) ↔
      ∃ block rest, bytes = block ++ rest ∧ Block i block ∧ ∃ blocks, Cut is blocks rest := by
  refine ⟨?_, ?_⟩
  · intro hcut
    obtain ⟨blocks, hcut⟩ := hcut
    obtain ⟨block, blocks', rest, _, rfl, hblock, hrest⟩ := hcut.uncons
    exact ⟨block, rest, rfl, hblock, blocks', hrest⟩
  · intro hparts
    obtain ⟨block, rest, rfl, hblock, blocks, hrest⟩ := hparts
    exact ⟨block :: blocks, .cons hblock hrest⟩

/-- **What decoding forgets.** The byte strings of the same instructions are those that spell the
registers in them differently. Induction on the cut, one block at a time. -/
theorem cut_iff_respelled {is : List Instr} {blocks : List (List UInt8)} {a b : List UInt8}
    (h : Cut is blocks a) : (∃ blocks', Cut is blocks' b) ↔ Respelled (TagAt is) a b := by
  induction h generalizing b with
  | nil =>
    rw [respelled_iff_eq (by simp)]
    refine ⟨?_, ?_⟩
    · intro hcut
      obtain ⟨_, hcut⟩ := hcut
      cases hcut
      rfl
    · intro heq
      subst heq
      exact ⟨[], .nil⟩
  | cons hblock _ ih =>
    have hlen := length_of_block hblock
    rw [exists_cut_cons_iff, respelled_append_iff]
    refine ⟨?_, ?_⟩
    · intro hparts
      obtain ⟨block', rest', rfl, hblock', hrest'⟩ := hparts
      refine ⟨block', rest', rfl, ?_, (ih.mp hrest').congr ?_⟩
      · refine ((block_iff_respelled hblock).mp hblock').congr fun k hk => ?_
        exact (tagAt_cons_first (hlen ▸ hk)).mpr
      · intro k _ htag
        rw [hlen]
        exact tagAt_cons_later.mpr htag
    · intro hparts
      obtain ⟨block', rest', rfl, hblock', hrest'⟩ := hparts
      refine ⟨block', rest', rfl, ?_, ih.mpr (hrest'.congr ?_)⟩
      · refine (block_iff_respelled hblock).mpr (hblock'.congr fun k hk => ?_)
        exact (tagAt_cons_first (hlen ▸ hk)).mp
      · intro k _ htag
        rw [hlen] at htag
        exact tagAt_cons_later.mp htag

/-! ## The encoder's spelling

The encoder writes the blocks of the instructions one after the other. It is one of the spellings, the
one in which every register has the tag `0x56`. -/

theorem records_encode (os : List Operand) : Records os (os.flatMap Operand.encode) := by
  induction os with
  | nil => exact .nil
  | cons o os ih =>
    have hrecord := record_ofRecord o.tag o.valueByte
    rw [Operand.ofRecord_tag_valueByte] at hrecord
    exact .cons hrecord ih

theorem cut_encode (is : List Instr) :
    Cut is (is.map Instr.encode) (is.flatMap Instr.encode) := by
  induction is with
  | nil => exact .nil
  | cons i is ih => exact .cons ⟨_, rfl, records_encode i.operands⟩ ih

theorem getElem?_encode_tag {os : List Operand} {m : Nat} (hm : m < os.length) :
    (os.flatMap Operand.encode)[2 * m]? = some 0x45 ∨
      (os.flatMap Operand.encode)[2 * m]? = some 0x56 := by
  induction os generalizing m with
  | nil => exact absurd hm (by simp)
  | cons o os ih =>
    rw [List.flatMap_cons]
    cases m with
    | zero =>
      cases o with
      | literal v => exact .inl rfl
      | register r => exact .inr rfl
    | succ m =>
      have hlen : o.encode.length = 2 := Operand.length_encode o
      have hbehind : o.encode.length ≤ 2 * (m + 1) := by omega
      have hrest : 2 * (m + 1) - o.encode.length = 2 * m := by omega
      rw [List.getElem?_append_right hbehind, hrest]
      exact ih (Nat.lt_of_succ_lt_succ hm)

/-- Every tag that the encoder writes is `0x45` or `0x56`. -/
theorem getElem?_encode_of_tagAt {is : List Instr} {k : Nat} (h : TagAt is k) :
    (is.flatMap Instr.encode)[k]? = some 0x45 ∨ (is.flatMap Instr.encode)[k]? = some 0x56 := by
  induction is generalizing k with
  | nil =>
    obtain ⟨j, i, m, hj, _⟩ := h
    cases hj
  | cons i is ih =>
    have hlen := Instr.length_encode i
    rw [List.flatMap_cons]
    rcases Nat.lt_or_ge k i.opcode.encodedLength with hfirst | hlater
    · obtain ⟨m, hm, rfl⟩ := (tagAt_cons_first hfirst).mp h
      rw [List.getElem?_append_left (hlen ▸ hfirst), Nat.add_comm 1 (2 * m)]
      have hm' : m < i.operands.length := by
        rw [Instr.length_operands]
        exact hm
      show (i.operands.flatMap Operand.encode)[2 * m]? = _ ∨ (i.operands.flatMap _)[2 * m]? = _
      exact getElem?_encode_tag hm'
    · obtain ⟨k', rfl⟩ := Nat.exists_eq_add_of_le hlater
      rw [List.getElem?_append_right (by omega), hlen, Nat.add_sub_cancel_left]
      exact ih (tagAt_cons_later.mp h)

theorem decode_encode_eq (p : Program) : decode p.encode = .ok p :=
  decode_eq_ok_iff_exists_cut.mpr ⟨_, cut_encode p.toList⟩

theorem respelled_encode {bytes : List UInt8} {p : Program} (h : decode bytes = .ok p) :
    Respelled (TagAt p.toList) bytes p.encode := by
  obtain ⟨blocks, hcut⟩ := decode_eq_ok_iff_exists_cut.mp h
  exact (cut_iff_respelled hcut).mp ⟨_, cut_encode p.toList⟩

/-- Where an accepted byte string has the tag of a register, the encoder writes `0x56`. -/
theorem getElem?_encode_of_register {bytes : List UInt8} {p : Program} (h : decode bytes = .ok p)
    {k : Nat} (htag : TagAt p.toList k) (hk : bytes[k]? ≠ some 0x45) :
    p.encode[k]? = some 0x56 := by
  rcases getElem?_encode_of_tagAt htag with hencode | hencode
  · -- the encoder keeps literals literals, so this cannot be one
    have hsame : bytes[k]? = p.encode[k]? := by
      by_contra hdiff
      exact ((respelled_encode h).2 k hdiff).2.2 hencode
    exact absurd (hsame.trans hencode) hk
  · exact hencode

theorem getElem?_encode_of_other {bytes : List UInt8} {p : Program} (h : decode bytes = .ok p)
    {k : Nat} (hk : ¬ (TagAt p.toList k ∧ bytes[k]? ≠ some 0x45)) : p.encode[k]? = bytes[k]? := by
  by_contra hdiff
  obtain ⟨htag, hliteral, _⟩ := (respelled_encode h).2 k (Ne.symm hdiff)
  exact hk ⟨htag, hliteral⟩

theorem encode_eq_iff {bytes : List UInt8} {p : Program} (h : decode bytes = .ok p) :
    p.encode = bytes ↔
      ∀ k, TagAt p.toList k → bytes[k]? ≠ some 0x45 → bytes[k]? = some 0x56 := by
  refine ⟨?_, ?_⟩
  · intro heq k htag hk
    rw [← getElem?_encode_of_register h htag hk, heq]
  · intro htags
    apply List.ext_getElem?
    intro k
    by_cases hk : TagAt p.toList k ∧ bytes[k]? ≠ some 0x45
    · rw [getElem?_encode_of_register h hk.1 hk.2, htags k hk.1 hk.2]
    · exact getElem?_encode_of_other h hk

theorem decode_eq_decode_iff {a b : List UInt8} {p q : Program} (ha : decode a = .ok p)
    (hb : decode b = .ok q) : p = q ↔ Respelled (TagAt p.toList) a b := by
  obtain ⟨blocks, hcut⟩ := decode_eq_ok_iff_exists_cut.mp ha
  rw [← cut_iff_respelled hcut, ← decode_eq_ok_iff_exists_cut, hb]
  refine ⟨?_, ?_⟩
  · intro heq
    subst heq
    rfl
  · intro h
    exact (Except.ok.inj h).symm

/-! ## Encoding and decoding are inverse up to spelling -/

/-- **Encoding and decoding are inverse up to the spelling of register tags.** Every program is decoded
from what it is encoded as. Re-encoding an accepted byte string replaces the tags of registers by
`0x56` and changes nothing else, so that it changes nothing at all exactly if they were that before,
and nothing when it is done again. Two accepted byte strings hold the same program exactly if they
differ in the spelling of registers only. -/
theorem decode_encode_up_to_spelling :
    (∀ p : Program, decode p.encode = .ok p) ∧
    (∀ (bytes : List UInt8) (p : Program), decode bytes = .ok p →
      p.encode.length = bytes.length ∧
      (∀ k, TagAt p.toList k → bytes[k]? ≠ some 0x45 → p.encode[k]? = some 0x56) ∧
      (∀ k, ¬ (TagAt p.toList k ∧ bytes[k]? ≠ some 0x45) → p.encode[k]? = bytes[k]?) ∧
      (p.encode = bytes ↔
        ∀ k, TagAt p.toList k → bytes[k]? ≠ some 0x45 → bytes[k]? = some 0x56) ∧
      (decode p.encode).map Program.encode = .ok p.encode) ∧
    (∀ (a b : List UInt8) (p q : Program), decode a = .ok p → decode b = .ok q →
      (p = q ↔ Respelled (TagAt p.toList) a b)) := by
  refine ⟨decode_encode_eq, ?_, fun a b p q => decode_eq_decode_iff⟩
  intro bytes p h
  refine ⟨(respelled_encode h).1.symm, fun k => getElem?_encode_of_register h,
    fun k => getElem?_encode_of_other h, encode_eq_iff h, ?_⟩
  rw [decode_encode_eq]
  rfl

/-- An opcode byte as the tag of a register, and the tag of a literal as its name. -/
theorem decode_encode_up_to_spelling_opcode :
    decode [0x12, 0x12, 0x45] = .ok #[.printNumber (.register 0x45)] ∧
      Program.encode #[.printNumber (.register 0x45)] ≠ [0x12, 0x12, 0x45] ∧
      Program.encode #[.printNumber (.register 0x45)] = [0x12, 0x56, 0x45] := by
  have h : decode [0x12, 0x12, 0x45] = .ok #[.printNumber (.register 0x45)] := by cbv
  have h' : decode [0x12, 0x56, 0x45] = .ok #[.printNumber (.register 0x45)] := by cbv
  obtain ⟨_, hencode, _⟩ := decode_encode_up_to_spelling
  have htag : TagAt [.printNumber (.register 0x45)] 1 := ⟨0, _, 0, rfl, by decide, rfl⟩
  refine ⟨h, ?_, ?_⟩
  · intro heq
    exact absurd ((hencode _ _ h).2.2.2.1.mp heq 1 htag (by decide)) (by decide)
  · refine (hencode _ _ h').2.2.2.1.mpr ?_
    intro k htag _
    obtain ⟨j, i, m, hj, hm, rfl⟩ := htag
    cases j with
    | zero =>
      cases hj
      obtain rfl : m = 0 := Nat.lt_one_iff.mp hm
      rfl
    | succ j => cases hj

end RegisterMachine.Layout
