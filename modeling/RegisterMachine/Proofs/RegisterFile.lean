import Mathlib.Algebra.Ring.Int.Defs
import Mathlib.Data.Finset.Card
import RegisterMachine.RegisterFile

/-!
# Histories of a register file

A register file that is only added to and subtracted from is known from the list of these changes: what
is in a register is the balance of the changes made to it, and the written registers are those that
some change names.

* **`Update`** — a change of one register, and **`RegisterFile.applyAll`** — a list of them, one after
  the other.
* **`Update.addend`**, **`Update.subtrahend`** — what a change contributes to the balance of a register,
  as an integer.
* **`RegisterFile.get_applyAll`** — contents are balances, reduced to words.
* **`RegisterFile.size_eq_card`**, **`RegisterFile.mem_foldl_of_mem_iff`** — how many registers are written,
  and which ones by operations in a row.
* **`RegisterFile.mem_applyAll`**, **`RegisterFile.size_applyAll_empty`** — the same of changes.
-/

namespace RegisterMachine

/-- A change of one register. -/
inductive Update where
  /-- adds `delta` to the register `id` -/
  | add (id delta : Word)
  /-- subtracts `delta` from the register `id` -/
  | sub (id delta : Word)
deriving DecidableEq, Repr

namespace Update

/-- The register that is changed. -/
def id : Update → Word
  | add id _ | sub id _ => id

/-- The register file after the change. -/
def applyTo (r : RegisterFile) : Update → RegisterFile
  | add id delta => r.add id delta
  | sub id delta => r.sub id delta

/-- What the change adds to the register `x`. -/
def addend (x : Word) : Update → Int
  | add id delta => if id = x then delta.toInt else 0
  | sub _ _ => 0

/-- What the change subtracts from the register `x`. -/
def subtrahend (x : Word) : Update → Int
  | add _ _ => 0
  | sub id delta => if id = x then delta.toInt else 0

theorem get_applyTo (r : RegisterFile) (u : Update) (x : Word) :
    (u.applyTo r).get x = r.get x + .ofInt (u.addend x - u.subtrahend x) := by
  cases u with
  | add id delta =>
    rw [applyTo, RegisterFile.add, RegisterFile.get_set, addend, subtrahend, Int.sub_zero]
    by_cases hx : id = x
    · rw [if_pos hx, if_pos hx, Int64.ofInt_toInt, hx]
    · rw [if_neg hx, if_neg hx]
      exact (Int64.add_zero _).symm
  | sub id delta =>
    rw [applyTo, RegisterFile.sub, RegisterFile.get_set, addend, subtrahend, Int.zero_sub]
    by_cases hx : id = x
    · rw [if_pos hx, if_pos hx, Int64.ofInt_neg, Int64.ofInt_toInt, hx, Int64.sub_eq_add_neg]
    · rw [if_neg hx, if_neg hx]
      exact (Int64.add_zero _).symm

theorem mem_applyTo {r : RegisterFile} {u : Update} {x : Word} :
    x ∈ u.applyTo r ↔ u.id = x ∨ x ∈ r := by
  cases u with
  | add id delta => exact RegisterFile.mem_set
  | sub id delta => exact RegisterFile.mem_set

theorem size_applyTo (r : RegisterFile) (u : Update) :
    (u.applyTo r).size = if u.id ∈ r then r.size else r.size + 1 := by
  cases u with
  | add id delta => exact RegisterFile.size_set r id _
  | sub id delta => exact RegisterFile.size_set r id _

end Update

namespace RegisterFile

/-! ## Written registers -/

/-- A register file has as many written registers as there are in the set of them. -/
theorem size_eq_card {r : RegisterFile} {s : Finset Word} (h : ∀ x, x ∈ r ↔ x ∈ s) :
    r.size = s.card := by
  have hkeys : r.contents.keys.toFinset = s := by
    ext x
    rw [List.mem_toFinset, Std.ExtTreeMap.mem_keys, ← h x]
    exact mem_iff_mem_contents.symm
  rw [← hkeys, List.toFinset_card_of_nodup Std.ExtTreeMap.nodup_keys, Std.ExtTreeMap.length_keys]
  rfl

/-- If each of some operations writes the register that it names, they write those that they name. -/
theorem mem_foldl_of_mem_iff {α : Type} {apply : RegisterFile → α → RegisterFile} {name : α → Word}
    (happly : ∀ r a x, x ∈ apply r a ↔ name a = x ∨ x ∈ r) {r : RegisterFile} {operations : List α}
    {x : Word} : x ∈ operations.foldl apply r ↔ x ∈ operations.map name ∨ x ∈ r := by
  induction operations generalizing r with
  | nil => exact (or_iff_right List.not_mem_nil).symm
  | cons a operations ih =>
    rw [List.foldl_cons, ih, happly, List.map_cons, List.mem_cons, eq_comm (a := x)]
    tauto

/-! ## Changes in a row -/

/-- The register file after changes, made in this order. -/
def applyAll (r : RegisterFile) (updates : List Update) : RegisterFile :=
  updates.foldl Update.applyTo r

theorem applyAll_append (r : RegisterFile) (updates updates' : List Update) :
    r.applyAll (updates ++ updates') = (r.applyAll updates).applyAll updates' :=
  List.foldl_append

theorem applyAll_concat (r : RegisterFile) (updates : List Update) (u : Update) :
    r.applyAll (updates ++ [u]) = u.applyTo (r.applyAll updates) :=
  applyAll_append r updates [u]

/-- **Contents are balances.** -/
theorem get_applyAll (r : RegisterFile) (updates : List Update) (x : Word) :
    (r.applyAll updates).get x =
      r.get x + .ofInt ((updates.map (·.addend x)).sum - (updates.map (·.subtrahend x)).sum) := by
  induction updates using List.reverseRecOn with
  | nil => exact (Int64.add_zero _).symm
  | append_singleton updates u ih =>
    rw [applyAll_concat, Update.get_applyTo, ih, Int64.add_assoc, ← Int64.ofInt_add]
    congr 2
    simp only [List.map_append, List.sum_append, List.map_singleton, List.sum_singleton]
    omega

theorem mem_applyAll {r : RegisterFile} {updates : List Update} {x : Word} :
    x ∈ r.applyAll updates ↔ x ∈ updates.map Update.id ∨ x ∈ r := by
  refine mem_foldl_of_mem_iff ?_
  exact fun r u x => Update.mem_applyTo

/-- **The written registers are those that a change names**, each counted once. -/
theorem size_applyAll_empty (updates : List Update) :
    (applyAll ∅ updates).size = (updates.map Update.id).toFinset.card := by
  refine size_eq_card fun x => ?_
  rw [mem_applyAll, List.mem_toFinset]
  exact or_iff_left (not_mem_empty x)

end RegisterFile

end RegisterMachine
