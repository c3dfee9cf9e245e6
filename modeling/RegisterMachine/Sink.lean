import RegisterMachine.Fault

/-!
# Output sinks

A sink keeps what a program prints. It stands on a medium, which decides at each write call how many
bytes it takes and at each flush call whether that works out, and which may change at every call.
Whatever the medium does, the sink only ever grows by a front part of the data of the call, so bytes
that were stored before a fault stay stored.

`Sink.writeAll` repeats write calls until all bytes are stored, `Sink.emit` flushes after that.

A write call that is interrupted is made again, with the same data, and nobody hears of it. Here a call of
the medium stands for the first one that is not interrupted, so a medium has no answer for that.
-/

namespace RegisterMachine

/-- What output goes to. Both calls may depend on everything that happened before, and both may
fail. -/
class Medium (μ : Type) where
  /-- One write call, up to its first outcome that is no interruption, given the number of bytes stored so
  far: the number of bytes taken from the front of the data. -/
  write (medium : μ) (stored : Nat) (data : List UInt8) : Except Fault Nat × μ
  /-- One flush call, given the number of flush calls before it. -/
  flush (medium : μ) (calls : Nat) : Except Fault Unit × μ

/-- A medium together with the record of what was stored and flushed on it. -/
structure Sink (μ : Type) where
  /-- the medium in its present state -/
  medium : μ
  /-- the bytes stored so far -/
  stored : Array UInt8 := #[]
  /-- the number of bytes stored at the last flush that succeeded -/
  flushed : Nat := 0
  /-- the number of flush calls so far -/
  flushes : Nat := 0
deriving DecidableEq

namespace Sink

variable {μ : Type} [Medium μ]

/-- The fault of a write call that takes none of the data. -/
def nothingTaken : Fault := "failed to write whole buffer"

/-- Writes all of `data`, in as many write calls as the medium needs. The sign of a negative number may
be sent ahead of its digits; a medium that takes the sign alone from the first call does the same. -/
def writeAll (s : Sink μ) (data : List UInt8) : Except Fault Unit × Sink μ :=
  match data with
  | [] => (.ok (), s)
  | b :: rest =>
    match Medium.write s.medium s.stored.size (b :: rest) with
    | (.error fault, medium) => (.error fault, { s with medium })
    | (.ok 0, medium) => (.error nothingTaken, { s with medium })
    | (.ok (n + 1), medium) =>
      writeAll { s with medium, stored := s.stored ++ (b :: rest).take (n + 1) } (rest.drop n)
  termination_by data.length
  decreasing_by
    simp only [List.length_drop, List.length_cons]
    omega

/-- One flush call. It counts as a call even if it fails. -/
def flush (s : Sink μ) : Except Fault Unit × Sink μ :=
  match Medium.flush s.medium s.flushes with
  | (.ok (), medium) =>
    (.ok (), { s with medium, flushed := s.stored.size, flushes := s.flushes + 1 })
  | (.error fault, medium) => (.error fault, { s with medium, flushes := s.flushes + 1 })

/-- Writes all of `data` and, if that worked out, flushes. -/
def emit (s : Sink μ) (data : List UInt8) : Except Fault Unit × Sink μ :=
  match s.writeAll data with
  | (.ok (), s') => s'.flush
  | (.error fault, s') => (.error fault, s')

/-- Changes the medium and leaves the record alone. -/
def adjust (s : Sink μ) (change : μ → μ) : Sink μ :=
  { s with medium := change s.medium }

end Sink

end RegisterMachine
