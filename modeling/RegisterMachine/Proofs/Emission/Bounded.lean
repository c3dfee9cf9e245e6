import RegisterMachine.Proofs.Emission

/-!
# Emission to a medium of limited capacity

Such a medium takes as much as there is room for, in calls of any size. So an emission goes through if all
of the data fits, and otherwise stores exactly what fits, whatever the size of the calls is.

* **`Bounded.Steady`** — the medium fails for lack of room only.
* **`Sink.emit_of_holds`**, **`Sink.emit_of_full`** — the two ways an emission goes.
* **`Bounded.neverFails_of_unlimited`** — without a limit it never fails.
-/

namespace RegisterMachine

namespace Bounded

/-- There is room for `n` bytes in all. -/
def Holds (b : Bounded) (n : Nat) : Prop :=
  ∀ limit, b.limit = some limit → n ≤ limit

/-- A call can take a byte where there is room for one, and no flush call fails. -/
structure Steady (b : Bounded) : Prop where
  chunk : ∀ chunk, b.chunk = some chunk → 0 < chunk
  flush : b.failingFlushes = []

/-- The fault of a write call when there is no room left. -/
def fullFault (b : Bounded) : Fault :=
  match b.whenFull with
  | .fails => b.fault
  | .takesNothing => Sink.nothingTaken

/-- The same medium without a limit. -/
def withoutLimit (b : Bounded) : Bounded :=
  { b with limit := none }

variable {b : Bounded}

theorem holds_iff {limit n : Nat} (hlimit : b.limit = some limit) : b.Holds n ↔ n ≤ limit := by
  simp [Holds, hlimit]

theorem Steady.withoutLimit (h : b.Steady) : b.withoutLimit.Steady :=
  ⟨h.chunk, h.flush⟩

theorem flush_of_steady (h : b.Steady) (calls : Nat) : Medium.flush b calls = (.ok (), b) := by
  show (if calls ∈ b.failingFlushes then _ else _) = _
  rw [h.flush, if_neg (by simp)]

theorem write_of_taken {stored n : Nat} {data : List UInt8} (h : b.taken stored data.length = n + 1) :
    Medium.write b stored data = (.ok (n + 1), b) := by
  simp only [Medium.write, h]

theorem taken_le_length (b : Bounded) (stored length : Nat) : b.taken stored length ≤ length := by
  unfold taken
  omega

/-- A call takes something if there is room for a byte. -/
theorem taken_pos (h : b.Steady) {stored length : Nat} (hlength : 0 < length)
    (hroom : b.Holds (stored + 1)) : 0 < b.taken stored length := by
  have hchunk : 0 < b.chunk.getD length := by
    cases hc : b.chunk with
    | none => exact hlength
    | some chunk => exact h.chunk chunk hc
  have hlimit : 0 < b.limit.elim length (· - stored) := by
    cases hl : b.limit with
    | none => exact hlength
    | some limit =>
      have := hroom limit hl
      show 0 < limit - stored
      omega
  unfold taken
  omega

/-- No call takes more than there is room for. -/
theorem taken_le_room {limit : Nat} (hlimit : b.limit = some limit) (stored length : Nat) :
    b.taken stored length ≤ limit - stored := by
  unfold taken
  rw [hlimit, Option.elim_some]
  omega

theorem Holds.mono {n n' : Nat} (h : b.Holds n) (hle : n' ≤ n) : b.Holds n' :=
  fun limit hlimit => Nat.le_trans hle (h limit hlimit)

/-- **Without a limit the medium never fails.** -/
theorem neverFails_of_unlimited (h : b.Steady) (hlimit : b.limit = none) : Medium.NeverFails b := by
  refine ⟨fun medium => medium = b, ⟨?_, ?_⟩, rfl⟩
  · intro medium hmedium stored c rest
    have hroom : b.Holds (stored + 1) := by
      intro limit hl
      rw [hlimit] at hl
      cases hl
    have hpos : 0 < b.taken stored (c :: rest).length := taken_pos h (Nat.succ_pos _) hroom
    obtain ⟨n, hn⟩ := Nat.exists_eq_add_one_of_ne_zero (Nat.ne_of_gt hpos)
    rw [hmedium]
    exact ⟨n, b, write_of_taken hn, rfl⟩
  · intro medium hmedium calls
    rw [hmedium]
    exact ⟨b, flush_of_steady h calls, rfl⟩

end Bounded

namespace Sink

open Bounded

variable {s : Sink Bounded}

/-- A write call where there is room: what it took is stored, and no more than there is room for. -/
theorem writeAll_of_room (h : s.medium.Steady) (c : UInt8) (rest : List UInt8)
    (hroom : s.medium.Holds (s.stored.size + 1)) :
    ∃ n, n ≤ rest.length ∧ s.medium.Holds (s.stored.size + (n + 1)) ∧
      (s.stored ++ (c :: rest).take (n + 1)).size = s.stored.size + (n + 1) ∧
      s.writeAll (c :: rest) =
        writeAll { s with stored := s.stored ++ (c :: rest).take (n + 1) } (rest.drop n) := by
  have hpos := taken_pos h (Nat.succ_pos rest.length) hroom
  obtain ⟨n, hn⟩ := Nat.exists_eq_add_one_of_ne_zero (Nat.ne_of_gt hpos)
  have hlength := taken_le_length s.medium s.stored.size (rest.length + 1)
  rw [Nat.succ_eq_add_one] at hn
  rw [hn] at hlength
  refine ⟨n, by omega, fun limit hlimit => ?_, ?_, writeAll_of_taken (write_of_taken hn)⟩
  · have hle := taken_le_room hlimit s.stored.size (rest.length + 1)
    have := hroom limit hlimit
    omega
  · rw [size_stored_append, List.length_take, List.length_cons]
    omega

/-! ## Data that fits -/

theorem writeAll_of_holds (h : s.medium.Steady) {data : List UInt8}
    (hroom : s.medium.Holds (s.stored.size + data.length)) :
    s.writeAll data = (.ok (), { s with stored := s.stored ++ data }) := by
  -- on the number of bytes left: where there is room, a write call takes at least one
  induction hlen : data.length using Nat.strongRecOn generalizing s data with
  | ind len ih =>
    cases data with
    | nil => rw [writeAll, Array.appendList_nil]
    | cons c rest =>
      rw [List.length_cons] at hroom hlen
      obtain ⟨n, hn, _, hsize, hcall⟩ := writeAll_of_room h c rest (hroom.mono (by omega))
      have hleft : (rest.drop n).length = rest.length - n := List.length_drop
      have hrest := ih (rest.drop n).length (by omega)
        (s := { s with stored := s.stored ++ (c :: rest).take (n + 1) }) h
        (hroom.mono (by simp only [hsize]; omega)) rfl
      have hdata : (c :: rest).take (n + 1) ++ rest.drop n = c :: rest :=
        List.take_append_drop (n + 1) (c :: rest)
      rw [hcall, hrest, ← hdata, ← stored_append, hdata]

/-- All data is stored and flushed. -/
theorem emit_of_holds (h : s.medium.Steady) {data : List UInt8}
    (hroom : s.medium.Holds (s.stored.size + data.length)) :
    s.emit data = (.ok (), {
      medium := s.medium
      stored := s.stored ++ data
      flushed := (s.stored ++ data).size
      flushes := s.flushes + 1 }) := by
  rw [emit, writeAll_of_holds h hroom]
  show Sink.flush _ = _
  rw [Sink.flush, flush_of_steady h]

/-! ## Data that does not fit -/

/-- A write call without room fails, or it takes nothing, which is a failure too. -/
theorem writeAll_of_no_room {limit : Nat} (hlimit : s.medium.limit = some limit)
    (hsize : limit ≤ s.stored.size) (c : UInt8) (rest : List UInt8) :
    s.writeAll (c :: rest) = (.error s.medium.fullFault, s) := by
  have htaken : s.medium.taken s.stored.size (c :: rest).length = 0 := by
    have := taken_le_room hlimit s.stored.size (c :: rest).length
    omega
  cases hfull : s.medium.whenFull with
  | fails =>
    have hwrite : Medium.write s.medium s.stored.size (c :: rest) =
        (.error s.medium.fault, s.medium) := by
      simp only [Medium.write, htaken, hfull]
    rw [writeAll_of_error hwrite, fullFault, hfull]
  | takesNothing =>
    have hwrite : Medium.write s.medium s.stored.size (c :: rest) = (.ok 0, s.medium) := by
      simp only [Medium.write, htaken, hfull]
    rw [writeAll_of_nothing hwrite, fullFault, hfull]

/-- What fits is stored. -/
theorem writeAll_of_full (h : s.medium.Steady) {limit : Nat} (hlimit : s.medium.limit = some limit)
    {data : List UInt8} (hsize : s.stored.size ≤ limit)
    (hfull : limit < s.stored.size + data.length) :
    s.writeAll data = (.error s.medium.fullFault,
      { s with stored := s.stored ++ data.take (limit - s.stored.size) }) := by
  -- on the number of bytes left, down to the write call without room
  induction hlen : data.length using Nat.strongRecOn generalizing s data with
  | ind len ih =>
    cases data with
    | nil =>
      rw [List.length_nil] at hfull
      omega
    | cons c rest =>
      rw [List.length_cons] at hfull hlen
      by_cases hroom : s.stored.size < limit
      · have hholds : s.medium.Holds (s.stored.size + 1) := (holds_iff hlimit).mpr hroom
        obtain ⟨n, hn, hfits, hnext, hcall⟩ := writeAll_of_room h c rest hholds
        have hfits := hfits limit hlimit
        have hleft : (rest.drop n).length = rest.length - n := List.length_drop
        have hrest := ih (rest.drop n).length (by omega)
          (s := { s with stored := s.stored ++ (c :: rest).take (n + 1) }) h hlimit
          (by simp only [hnext]; omega) (by simp only [hnext]; omega) rfl
        -- the call took `n + 1` of the bytes that fit
        have hdata : (c :: rest).take (n + 1) ++ (rest.drop n).take (limit - (s.stored.size + (n + 1))) =
            (c :: rest).take (limit - s.stored.size) := by
          have hsplit : limit - s.stored.size = n + 1 + (limit - (s.stored.size + (n + 1))) := by
            omega
          rw [hsplit]
          exact List.take_add.symm
        rw [hcall, hrest]
        simp only [hnext, stored_append, hdata]
      · have hnothing : limit - s.stored.size = 0 := by omega
        rw [writeAll_of_no_room hlimit (by omega), hnothing, List.take_zero, Array.appendList_nil]

/-- What fits is stored, and nothing is flushed. -/
theorem emit_of_full (h : s.medium.Steady) {limit : Nat} (hlimit : s.medium.limit = some limit)
    {data : List UInt8} (hsize : s.stored.size ≤ limit)
    (hfull : limit < s.stored.size + data.length) :
    s.emit data = (.error s.medium.fullFault,
      { s with stored := s.stored ++ data.take (limit - s.stored.size) }) := by
  rw [emit, writeAll_of_full h hlimit hsize hfull]

end Sink

end RegisterMachine
