import RegisterMachine.Sink

/-!
# Media

Two media for output: one that takes everything, and one of limited capacity whose limit, way of
failing, bytes per call and failing flush calls can be chosen.
-/

namespace RegisterMachine

/-- The medium that takes every byte at once and never fails. -/
structure Unlimited where
deriving DecidableEq

instance : Medium Unlimited where
  write medium _ data := (.ok data.length, medium)
  flush medium _ := (.ok (), medium)

/-- What a write call does when not a single byte can be taken. -/
inductive WhenFull where
  /-- the call fails -/
  | fails
  /-- the call reports that it took no byte -/
  | takesNothing
deriving DecidableEq, Repr

/-- A medium of limited capacity. -/
structure Bounded where
  /-- the number of bytes there is room for in all, if there is a limit -/
  limit : Option Nat := none
  /-- the number of bytes a single call takes at most, if there is a limit -/
  chunk : Option Nat := none
  /-- what happens when there is no room left -/
  whenFull : WhenFull := .fails
  /-- the text of every failure -/
  fault : String := "closed"
  /-- the numbers of the flush calls that fail, counted from 0 -/
  failingFlushes : List Nat := []
deriving DecidableEq, Repr

namespace Bounded

/-- The number of bytes that a call takes of `length` bytes when `stored` bytes are there. -/
def taken (b : Bounded) (stored length : Nat) : Nat :=
  min (b.chunk.getD length) (min (b.limit.elim length (· - stored)) length)

instance : Medium Bounded where
  write b stored data :=
    match b.taken stored data.length, b.whenFull with
    | 0, .fails => (.error b.fault, b)
    | n, _ => (.ok n, b)
  flush b calls :=
    if calls ∈ b.failingFlushes then (.error b.fault, b) else (.ok (), b)

end Bounded

end RegisterMachine
