import Std.Data.ExtTreeMap
import RegisterMachine.Word
import RegisterMachine.Operand

/-!
# The register file

There is a register for every word. A register that was never written reads 0, and the file knows
which registers were written: a register that was written with 0 counts, and tells a file apart
from one where it was not written. Two files are equal exactly when they have the same written
registers with the same contents.
-/

namespace RegisterMachine

/-- The written registers with their contents. -/
structure RegisterFile where
  /-- the contents of the written registers -/
  contents : Std.ExtTreeMap Word Word
deriving DecidableEq

namespace RegisterFile

/-- The file in which no register was written. -/
def empty : RegisterFile := ⟨∅⟩

instance : EmptyCollection RegisterFile := ⟨empty⟩

instance : Inhabited RegisterFile := ⟨empty⟩

/-- A register was written, with whatever value. -/
instance : Membership Word RegisterFile := ⟨fun r id => id ∈ r.contents⟩

instance (r : RegisterFile) (id : Word) : Decidable (id ∈ r) :=
  inferInstanceAs (Decidable (id ∈ r.contents))

/-- The content of a register, 0 if it was not written. -/
def get (r : RegisterFile) (id : Word) : Word :=
  r.contents.getD id 0

/-- Writes a register. -/
def set (r : RegisterFile) (id value : Word) : RegisterFile :=
  ⟨r.contents.insert id value⟩

/-- Adds to a register, around the end of the words if need be. -/
def add (r : RegisterFile) (id delta : Word) : RegisterFile :=
  r.set id (r.get id + delta)

/-- Subtracts from a register, around the end of the words if need be. -/
def sub (r : RegisterFile) (id delta : Word) : RegisterFile :=
  r.set id (r.get id - delta)

/-- The number of written registers. -/
def size (r : RegisterFile) : Nat :=
  r.contents.size

/-- No register was written. -/
def isEmpty (r : RegisterFile) : Bool :=
  r.contents.isEmpty

/-- The value of an operand: a literal itself, or the content of the register it names. -/
def resolve (r : RegisterFile) : Operand → Word
  | .literal value => .ofByte value
  | .register id => r.get (.ofByte id)

/-! ### Reading after writing -/

@[simp] theorem get_empty (id : Word) : empty.get id = 0 := by
  simp [empty, get]

theorem get_set (r : RegisterFile) (id value x : Word) :
    (r.set id value).get x = if id = x then value else r.get x := by
  simp [get, set, Std.ExtTreeMap.getD_insert]

theorem mem_iff_mem_contents {r : RegisterFile} {id : Word} : id ∈ r ↔ id ∈ r.contents :=
  Iff.rfl

@[simp] theorem not_mem_empty (id : Word) : id ∉ empty := by
  simp [mem_iff_mem_contents, empty]

theorem mem_set {r : RegisterFile} {id value x : Word} :
    x ∈ r.set id value ↔ id = x ∨ x ∈ r := by
  simp [mem_iff_mem_contents, set, Std.ExtTreeMap.mem_insert]

theorem get_of_not_mem {r : RegisterFile} {id : Word} (h : id ∉ r) : r.get id = 0 :=
  Std.ExtTreeMap.getD_eq_fallback h

theorem size_set (r : RegisterFile) (id value : Word) :
    (r.set id value).size = if id ∈ r then r.size else r.size + 1 := by
  simp [size, set, Std.ExtTreeMap.size_insert, mem_iff_mem_contents]

theorem isEmpty_iff_size_eq_zero (r : RegisterFile) : r.isEmpty = true ↔ r.size = 0 := by
  simp [isEmpty, size, Std.ExtTreeMap.isEmpty_eq_size_beq_zero]

/-- A file is determined by its written registers and their contents. -/
theorem ext_get {r s : RegisterFile} (hmem : ∀ id, id ∈ r ↔ id ∈ s)
    (hget : ∀ id, r.get id = s.get id) : r = s := by
  obtain ⟨r⟩ := r
  obtain ⟨s⟩ := s
  congr 1
  apply Std.ExtTreeMap.ext_getElem?
  intro id
  have hm := hmem id
  have hg := hget id
  simp only [mem_iff_mem_contents, get, Std.ExtTreeMap.mem_iff_isSome_getElem?,
    Std.ExtTreeMap.getD_eq_getD_getElem?] at hm hg
  cases hr : r[id]? <;> cases hs : s[id]? <;> simp_all

/-- Of two values written to a register the last one counts. -/
theorem set_set (r : RegisterFile) (id value value' : Word) :
    (r.set id value).set id value' = r.set id value' := by
  refine ext_get (fun x => ?_) fun x => ?_
  · simp [mem_set]
  · rw [get_set, get_set, get_set]
    split <;> rfl

/-- Writing what a register holds cannot be read. -/
theorem get_set_get (r : RegisterFile) (id x : Word) : (r.set id (r.get id)).get x = r.get x := by
  rw [get_set]
  split
  · next h => rw [h]
  · rfl

end RegisterFile

end RegisterMachine
