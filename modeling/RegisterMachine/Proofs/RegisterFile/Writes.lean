import Mathlib.Algebra.BigOperators.Group.List.Basic
import Mathlib.Data.List.DropRight
import RegisterMachine.Proofs.RegisterFile

/-!
# Register files and what was written to them

A register file can also be set to a value outright. What is in a register is then known from the end of
its history: the value it was last set to, and the balance of the changes after that. Nothing else about
the history can be told from the file, but which registers it names.

* **`Write`** — an operation on one register, and **`RegisterFile.writeAll`** — a list of them, one after
  the other.
* **`Write.lastSet`**, **`Write.sinceSet`** — the end of the history of a register.
* **`RegisterFile.get_writeAll_empty`** — contents are told from that end.
* **`RegisterFile.writeAll_empty_eq_iff`** — which histories lead to equal files.
* **`RegisterFile.applyAll_perm`** — changes can be made in any order.
* **`Write.Reordering`**, **`RegisterFile.writeAll_reordering`** — writes to different registers can be
  made in any order.
* **`register_file_obeys_history`** — all of it.
-/

namespace RegisterMachine

/-- An operation on one register. -/
inductive Write where
  /-- puts `value` into the register `id` -/
  | set (id value : Word)
  /-- adds to a register, or subtracts from it -/
  | change (u : Update)
deriving DecidableEq, Repr

namespace Write

/-- The register that is written. -/
def id : Write → Word
  | set id _ => id
  | change u => u.id

/-- The register file after the operation. -/
def applyTo (r : RegisterFile) : Write → RegisterFile
  | set id value => r.set id value
  | change u => u.applyTo r

/-- The value that the register `x` is set to, if it is. -/
def value? (x : Word) : Write → Option Word
  | set id value => if id = x then some value else none
  | change _ => none

/-- What the operation adds to the register `x`. -/
def addend (x : Word) : Write → Int
  | set _ _ => 0
  | change u => u.addend x

/-- What the operation subtracts from the register `x`. -/
def subtrahend (x : Word) : Write → Int
  | set _ _ => 0
  | change u => u.subtrahend x

/-- The value that the register `x` was last set to, 0 if it never was. -/
def lastSet (x : Word) (writes : List Write) : Word :=
  (writes.filterMap (value? x)).getLast?.getD 0

/-- The operations after the one that last set the register `x`; all of them, if it was never set. -/
def sinceSet (x : Word) (writes : List Write) : List Write :=
  writes.rtakeWhile fun w => (w.value? x).isNone

/-! ## One operation -/

theorem mem_applyTo {r : RegisterFile} {w : Write} {x : Word} :
    x ∈ w.applyTo r ↔ w.id = x ∨ x ∈ r := by
  cases w with
  | set id value => exact RegisterFile.mem_set
  | change u => exact Update.mem_applyTo

theorem get_applyTo_of_value {w : Write} {x value : Word} (h : w.value? x = some value)
    (r : RegisterFile) : (w.applyTo r).get x = value := by
  cases w with
  | change u => cases h
  | set id value' =>
    by_cases hx : id = x
    · simp only [value?, if_pos hx, Option.some.injEq] at h
      rw [applyTo, RegisterFile.get_set, if_pos hx, h]
    · simp [value?, hx] at h

theorem get_applyTo_of_no_value {w : Write} {x : Word} (h : w.value? x = none) (r : RegisterFile) :
    (w.applyTo r).get x = r.get x + .ofInt (w.addend x - w.subtrahend x) := by
  cases w with
  | change u => exact Update.get_applyTo r u x
  | set id value =>
    have hx : id ≠ x := by
      rintro rfl
      simp [value?] at h
    rw [applyTo, RegisterFile.get_set, if_neg hx]
    exact (Int64.add_zero _).symm

/-- Operations on other registers leave a register alone. -/
theorem get_applyTo_of_ne {w : Write} {x : Word} (h : w.id ≠ x) (r : RegisterFile) :
    (w.applyTo r).get x = r.get x := by
  cases w with
  | set id value => exact (RegisterFile.get_set r id value x).trans (if_neg h)
  | change u =>
    cases u with
    | add id delta => exact (RegisterFile.get_set r id _ x).trans (if_neg h)
    | sub id delta => exact (RegisterFile.get_set r id _ x).trans (if_neg h)

/-- What is in a register afterwards depends on what was in it before, and on no other register. -/
theorem get_applyTo_congr {r r' : RegisterFile} {x : Word} (h : r.get x = r'.get x) (w : Write) :
    (w.applyTo r).get x = (w.applyTo r').get x := by
  cases hvalue : w.value? x with
  | some value => rw [get_applyTo_of_value hvalue, get_applyTo_of_value hvalue]
  | none => rw [get_applyTo_of_no_value hvalue, get_applyTo_of_no_value hvalue, h]

end Write

/-! ## The end of a history -/

namespace Write

theorem lastSet_concat_of_value {w : Write} {x value : Word} (h : w.value? x = some value)
    (writes : List Write) : lastSet x (writes ++ [w]) = value := by
  simp [lastSet, h]

theorem lastSet_concat_of_no_value {w : Write} {x : Word} (h : w.value? x = none)
    (writes : List Write) : lastSet x (writes ++ [w]) = lastSet x writes := by
  simp [lastSet, h]

theorem sinceSet_concat_of_value {w : Write} {x value : Word} (h : w.value? x = some value)
    (writes : List Write) : sinceSet x (writes ++ [w]) = [] :=
  List.rtakeWhile_concat_neg _ _ _ (by simp [h])

theorem sinceSet_concat_of_no_value {w : Write} {x : Word} (h : w.value? x = none)
    (writes : List Write) : sinceSet x (writes ++ [w]) = sinceSet x writes ++ [w] :=
  List.rtakeWhile_concat_pos _ _ _ (by simp [h])

end Write

namespace RegisterFile

/-- The register file after operations, performed in this order. -/
def writeAll (r : RegisterFile) (writes : List Write) : RegisterFile :=
  writes.foldl Write.applyTo r

theorem writeAll_concat (r : RegisterFile) (writes : List Write) (w : Write) :
    r.writeAll (writes ++ [w]) = w.applyTo (r.writeAll writes) :=
  List.foldl_append

theorem writeAll_map_change (r : RegisterFile) (updates : List Update) :
    r.writeAll (updates.map .change) = r.applyAll updates :=
  List.foldl_map

/-- **Contents are told from the end of the history**: the value that was last set, and the balance of what
was added and subtracted after that. -/
theorem get_writeAll_empty (writes : List Write) (x : Word) :
    (writeAll ∅ writes).get x =
      .ofInt ((Write.lastSet x writes).toInt +
        ((Write.sinceSet x writes).map (·.addend x)).sum -
        ((Write.sinceSet x writes).map (·.subtrahend x)).sum) := by
  induction writes using List.reverseRecOn with
  | nil => exact get_empty x
  | append_singleton writes w ih =>
    rw [writeAll_concat]
    cases hvalue : w.value? x with
    | some value =>
      -- the history of the register starts anew
      rw [Write.get_applyTo_of_value hvalue, Write.lastSet_concat_of_value hvalue,
        Write.sinceSet_concat_of_value hvalue]
      simp
    | none =>
      rw [Write.get_applyTo_of_no_value hvalue, ih, Write.lastSet_concat_of_no_value hvalue,
        Write.sinceSet_concat_of_no_value hvalue, ← Int64.ofInt_add]
      congr 1
      simp only [List.map_append, List.sum_append, List.map_singleton, List.sum_singleton]
      omega

theorem mem_writeAll_empty {writes : List Write} {x : Word} :
    x ∈ writeAll ∅ writes ↔ x ∈ writes.map Write.id := by
  have hwritten : x ∈ writeAll ∅ writes ↔ x ∈ writes.map Write.id ∨ x ∈ (∅ : RegisterFile) := by
    refine mem_foldl_of_mem_iff ?_
    exact fun r w x => Write.mem_applyTo
  rw [hwritten]
  exact or_iff_left (not_mem_empty x)

theorem size_writeAll_empty (writes : List Write) :
    (writeAll ∅ writes).size = (writes.map Write.id).toFinset.card := by
  refine size_eq_card fun x => ?_
  rw [mem_writeAll_empty, List.mem_toFinset]

theorem isEmpty_writeAll_empty_iff {writes : List Write} :
    (writeAll ∅ writes).isEmpty = true ↔ writes = [] := by
  rw [isEmpty_iff_size_eq_zero, size_writeAll_empty, Finset.card_eq_zero, List.toFinset_eq_empty_iff,
    List.map_eq_nil_iff]

/-! ## Equal files -/

/-- **Equal files.** Histories lead to equal files exactly if they name the same registers and give the same
value to each. -/
theorem writeAll_empty_eq_iff {writes writes' : List Write} :
    writeAll ∅ writes = writeAll ∅ writes' ↔
      (∀ x, x ∈ writes.map Write.id ↔ x ∈ writes'.map Write.id) ∧
        ∀ x ∈ writes.map Write.id, (writeAll ∅ writes).get x = (writeAll ∅ writes').get x := by
  constructor
  · intro h
    refine ⟨fun x => ?_, fun x _ => by rw [h]⟩
    rw [← mem_writeAll_empty, h, mem_writeAll_empty]
  · rintro ⟨hnamed, hvalues⟩
    refine ext_get (fun x => ?_) fun x => ?_
    · rw [mem_writeAll_empty, mem_writeAll_empty, hnamed]
    · by_cases hx : x ∈ writes.map Write.id
      · exact hvalues x hx
      · -- neither history names the register, and it reads 0 in both files
        have hx' := mt (hnamed x).mpr hx
        rw [get_of_not_mem (mt mem_writeAll_empty.mp hx), get_of_not_mem (mt mem_writeAll_empty.mp hx')]

/-- Writing 0 to a register for the first time makes a difference that cannot be read. -/
theorem writeAll_concat_zero {writes : List Write} {w : Write}
    (hnew : w.id ∉ writes.map Write.id) (hzero : (writeAll ∅ (writes ++ [w])).get w.id = 0) :
    (∀ x, (writeAll ∅ (writes ++ [w])).get x = (writeAll ∅ writes).get x) ∧
      writeAll ∅ (writes ++ [w]) ≠ writeAll ∅ writes := by
  refine ⟨fun x => ?_, fun h => hnew ?_⟩
  · by_cases hx : w.id = x
    · rw [← hx, hzero, get_of_not_mem (mt mem_writeAll_empty.mp hnew)]
    · rw [writeAll_concat, Write.get_applyTo_of_ne hx]
  · rw [← mem_writeAll_empty, ← h, mem_writeAll_empty, List.map_append]
    exact List.mem_append_right _ (List.mem_singleton_self _)

/-! ## Other orders -/

/-- **Changes can be made in any order.** -/
theorem applyAll_perm {updates updates' : List Update} (h : updates.Perm updates') :
    applyAll ∅ updates = applyAll ∅ updates' := by
  refine ext_get (fun x => ?_) fun x => ?_
  · rw [mem_applyAll, mem_applyAll, (h.map Update.id).mem_iff]
  · rw [get_applyAll, get_applyAll, (h.map _).sum_eq, (h.map (·.subtrahend x)).sum_eq]

/-- What is in a register depends only on the operations on that register, in their order. -/
theorem get_writeAll_filter (r : RegisterFile) (writes : List Write) (x : Word) :
    (r.writeAll (writes.filter (·.id = x))).get x = (r.writeAll writes).get x := by
  induction writes using List.reverseRecOn with
  | nil => rfl
  | append_singleton writes w ih =>
    rw [List.filter_append, writeAll_concat]
    by_cases hx : w.id = x
    · rw [List.filter_singleton, decide_eq_true hx, cond_true, writeAll_concat]
      exact Write.get_applyTo_congr ih w
    · rw [List.filter_singleton, decide_eq_false hx, cond_false, List.append_nil, ih,
        Write.get_applyTo_of_ne hx]

end RegisterFile

/-- The second list holds the operations of the first in another order, but those on the same register in
the same order. -/
structure Write.Reordering (writes writes' : List Write) : Prop where
  perm : writes.Perm writes'
  order : ∀ x, writes.filter (·.id = x) = writes'.filter (·.id = x)

namespace RegisterFile

/-- **Operations on different registers can be performed in any order.** -/
theorem writeAll_reordering {writes writes' : List Write} (h : Write.Reordering writes writes') :
    writeAll ∅ writes = writeAll ∅ writes' := by
  refine writeAll_empty_eq_iff.mpr ⟨fun x => (h.perm.map Write.id).mem_iff, fun x _ => ?_⟩
  rw [← get_writeAll_filter, h.order, get_writeAll_filter]

/-- **The register file obeys its history.** Perform operations on the register file in which no register
was written. Each register holds the value that it was last set to, 0 if it never was, with what was
added since then and without what was subtracted, as an integer reduced to a word. As many registers are
written as the history names, and the file is empty only at its beginning. Two histories lead to equal files
exactly if they name the same registers and give the same value to each; so writing 0 to a register for the
first time leads to a different file, though every register reads the same. Additions and subtractions can
be permuted, and other operations too as long as those on the same register keep their order. -/
theorem register_file_obeys_history (writes : List Write) :
    let r := writeAll ∅ writes
    (∀ x, r.get x = .ofInt ((Write.lastSet x writes).toInt +
        ((Write.sinceSet x writes).map (·.addend x)).sum -
        ((Write.sinceSet x writes).map (·.subtrahend x)).sum)) ∧
      r.size = (writes.map Write.id).toFinset.card ∧
      (r.isEmpty = true ↔ writes = []) ∧
      (∀ writes', r = writeAll ∅ writes' ↔
        (∀ x, x ∈ writes.map Write.id ↔ x ∈ writes'.map Write.id) ∧
          ∀ x ∈ writes.map Write.id, r.get x = (writeAll ∅ writes').get x) ∧
      (∀ x ∉ writes.map Write.id,
        ∀ w ∈ [Write.set x 0, .change (.add x 0), .change (.sub x 0)],
          (∀ x', (writeAll ∅ (writes ++ [w])).get x' = r.get x') ∧ writeAll ∅ (writes ++ [w]) ≠ r) ∧
      (∀ updates updates' : List Update, writes = updates.map .change → updates.Perm updates' →
        r = writeAll ∅ (updates'.map .change)) ∧
      ∀ writes', Write.Reordering writes writes' → r = writeAll ∅ writes' := by
  intro r
  refine ⟨get_writeAll_empty writes, size_writeAll_empty writes, isEmpty_writeAll_empty_iff,
    fun _ => writeAll_empty_eq_iff, fun x hx w hw => ?_, fun updates updates' hwrites hperm => ?_,
    fun _ => writeAll_reordering⟩
  · have hunset : r.get x = 0 := get_of_not_mem (mt mem_writeAll_empty.mp hx)
    have hzero : w.id = x ∧ (w.applyTo r).get x = 0 := by
      simp only [List.mem_cons, List.not_mem_nil, or_false] at hw
      rcases hw with rfl | rfl | rfl
      · exact ⟨rfl, by simp [Write.applyTo, get_set]⟩
      · exact ⟨rfl, by simp [Write.applyTo, Update.applyTo, add, get_set, hunset]⟩
      · exact ⟨rfl, by simp [Write.applyTo, Update.applyTo, sub, get_set, hunset]⟩
    obtain ⟨rfl, hzero⟩ := hzero
    exact writeAll_concat_zero hx (by rwa [writeAll_concat])
  · show writeAll ∅ writes = _
    rw [hwrites, writeAll_map_change, writeAll_map_change, applyAll_perm hperm]

/-- Both ends of the words are passed: the largest word and 1 make the smallest, and the smallest taken from
0 is the smallest again. The operations on register 5 can be moved behind those on register 7, and a first
addition of 0 to register 300 tells the file apart. -/
theorem register_file_obeys_history_wrapped :
    let least : Word := -9223372036854775808
    let writes : List Write := [.change (.add 5 9), .set 7 9223372036854775807, .set 5 0,
      .change (.add 7 1), .change (.sub 5 least)]
    let writes' : List Write := [.set 7 9223372036854775807, .change (.add 7 1), .change (.add 5 9),
      .set 5 0, .change (.sub 5 least)]
    let updates : List Update := [.add 5 9, .sub 7 1, .add 5 least]
    let r := writeAll ∅ writes
    Write.Reordering writes writes' ∧ r = writeAll ∅ writes' ∧ r.get 7 = least ∧ r.get 5 = least ∧
      r.size = 2 ∧ (writeAll ∅ (writes ++ [.change (.add 300 0)])).get 300 = r.get 300 ∧
      writeAll ∅ (writes ++ [.change (.add 300 0)]) ≠ r ∧
      writeAll ∅ (updates.map .change) = writeAll ∅ (updates.reverse.map .change) := by
  intro least writes writes' updates r
  have hreordering : Write.Reordering writes writes' := by
    refine ⟨by decide +kernel, fun x => ?_⟩
    by_cases hfive : (5 : Word) = x
    · subst hfive
      decide +kernel
    · by_cases hseven : (7 : Word) = x
      · subst hseven
        decide +kernel
      · simp [writes, writes', Write.id, Update.id, hfive, hseven]
  obtain ⟨hget, hsize, _, _, hzero, _, horder⟩ := register_file_obeys_history writes
  obtain ⟨hsame, hdiffers⟩ := hzero 300 (by decide +kernel) (.change (.add 300 0)) (by decide +kernel)
  obtain ⟨_, _, _, _, _, hpermuted, _⟩ := register_file_obeys_history (updates.map .change)
  exact ⟨hreordering, horder writes' hreordering, (hget 7).trans (by decide +kernel),
    (hget 5).trans (by decide +kernel), hsize.trans (by decide +kernel), hsame 300, hdiffers,
    hpermuted updates updates.reverse rfl (List.reverse_perm updates).symm⟩

end RegisterFile

end RegisterMachine
