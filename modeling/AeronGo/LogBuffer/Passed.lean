import AeronGo.LogBuffer.Reader
import AeronGo.LogBuffer.Slot

/-!
# What a poll passes

The contract of a poll over a row of slots, said without offsets or loops: from the subscriber
position on, the slots that start below a bound and are not pending, cut after as many fragments as
the poll may deliver. `passed` is that list, each slot with the stream position it starts at.
-/

namespace AeronGo.LogBuffer

open Machine Atomic

/-- A row of slots with the stream positions they start at. -/
def starts : Int → List Slot → List (Int × Slot)
  | _, [] => []
  | position, s :: rest => (position, s) :: starts (position + s.space) rest

/-- A row up to its `limit`-th fragment. -/
def upToFragments : Int → List (Int × Slot) → List (Int × Slot)
  | _, [] => []
  | limit, x :: rest =>
    if 0 < limit then x :: upToFragments (if x.2.isData then limit - 1 else limit) rest else []

/-- The slot starts below the bound and is committed. -/
def readable (bound : Int) (x : Int × Slot) : Bool := x.1 < bound && !x.2.isPending

/-- The slots that a poll passes. -/
def passed (fragmentLimit bound position : Int) (slots : List Slot) : List (Int × Slot) :=
  upToFragments fragmentLimit ((starts position slots).takeWhile (readable bound))

/-- The fragments among slots. -/
def fragmentCount (slots : List Slot) : Int := slots.countP Slot.isData

/-- The bytes of the stream that slots take up. -/
def spaceOf (xs : List (Int × Slot)) : Int := totalSpace (xs.map Prod.snd)

variable {σ : Type}

/-- A handler is called on a data frame's payload and header, and on nothing else. -/
def deliver (handler : FragmentHandler σ) (buf : Buffer) (termBegin : Int) (st : σ) :
    Int × Slot → Except Stop σ
  | (position, .data _ payload) =>
    handler st buf (position - termBegin + headerLength) payload.length (position - termBegin)
  | (_, .padding _) => .ok st
  | (_, .pending _) => .ok st

end AeronGo.LogBuffer
