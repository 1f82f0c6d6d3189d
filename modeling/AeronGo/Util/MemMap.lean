import AeronGo.Atomic.Buffer
import AeronGo.Machine.Circle

/-!
# Memory mapped files

`aeron/util/memmap`, for one existing file. The mapping itself is that of `mmap-go`, which is not part of the
source: whether it grants a region of the file is a parameter, and an address is a number that is not used again. A
mapping that is granted is live until it is unmapped.
-/

namespace AeronGo.MemMap

open Machine Atomic

/-- The file, the live mappings by their addresses, and the addresses that `memories` has a handle for. -/
structure World where
  fileSize : Int
  mapped : List (Nat × Region)
  memories : List Nat
  next : Nat
  below : ∀ e ∈ mapped, e.1 < next

/-- The pointer to a mapping, and its size. -/
structure File where
  mmap : Nat
  size : Int
deriving DecidableEq, Repr

section Map

variable (grants : Region → Bool)

theorem World.below_next (w : World) (r : Region) : ∀ e ∈ w.mapped ++ [(w.next, r)], e.1 < w.next + 1 := by
  intro e he
  rcases List.mem_append.mp he with he | he
  · exact Nat.lt_succ_of_lt (w.below e he)
  · rw [List.mem_singleton.mp he]
    exact Nat.lt_succ_self _

/-- `doMap`; no result is an error. -/
def doMap (w : World) (offset length : Int) : Option (File × World) :=
  let r : Region := ⟨offset, length⟩
  if grants r then
    some (⟨w.next, length⟩,
      { w with
        mapped := w.mapped ++ [(w.next, r)]
        memories := w.memories ++ [w.next]
        next := w.next + 1
        below := w.below_next r })
  else none

/-- `MapExisting`: the whole file if the length is zero. -/
def mapExisting (w : World) (offset length : Int) : Option (File × World) :=
  if w.fileSize = 0 then none
  else doMap grants w offset (if length = 0 then w.fileSize else length)

end Map

/-- `Close`. A pointer without a handle fails the type assertion. -/
def File.close (file : File) (w : World) : Except Stop World :=
  if file.mmap ∈ w.memories then
    .ok { w with
      mapped := w.mapped.filter (·.1 ≠ file.mmap)
      below := fun e he => w.below e (List.mem_filter.mp he).1 }
  else .error .panic

end AeronGo.MemMap
