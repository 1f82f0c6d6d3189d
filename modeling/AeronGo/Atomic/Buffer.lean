import AeronGo.Util.Bits

/-!
# Atomic buffers

`aeron/atomic/buffer.go`: a pointer with a length, every access behind `BoundsCheck`. The pointer is
the memory that lies under the buffer, so a source buffer never aliases the buffer it is copied to.
The check rejects an end past the length and, like the source, nothing else: a negative offset
passes it. `log.Fatal` is `Stop.fatal`; a Go panic is `Stop.panic`; a loop that has not ended when
every frame of a buffer could have been visited is `Stop.unfinished`.
-/

namespace AeronGo.Atomic

open Machine

/-- How a call can end other than by returning. -/
inductive Stop where
  | fatal
  | panic
  | unfinished
deriving DecidableEq, Repr

structure Buffer where
  bytes : Memory
  length : Int

/-- `BoundsCheck`. -/
def boundsCheck (index length myLength : Int) : Except Stop Unit :=
  if myLength < i32 (index + length) then .error .fatal else .ok ()

/-! ## Memcpy -/

/-- A loop of `Memcpy`: words of `w` bytes from index `i` on, while the index is below the bound. -/
def copyWords (w : Nat) (dest : Int) (src : Memory) (srcIndex bound : Int) :
    Nat → Int → Memory → Int × Memory
  | 0, i, m => (i, m)
  | fuel + 1, i, m =>
    if i < bound then
      copyWords w dest src srcIndex bound fuel (i + w) (write m (dest + i) (read src (srcIndex + i) w))
    else (i, m)

/-- `Memcpy`: batches of 8, batches of 4 and the remainder, each loop going on where the last one
stopped. -/
def memcpy (m : Memory) (dest : Int) (src : Memory) (srcIndex length : Int) : Memory :=
  let (i, m) := copyWords 8 dest src srcIndex (length / 8) length.toNat 0 m
  let (i, m) := copyWords 4 dest src srcIndex ((length - i) / 4) length.toNat i m
  (copyWords 1 dest src srcIndex length length.toNat i m).2

namespace Buffer

variable (b : Buffer)

def getUInt8 (offset : Int) : Except Stop UInt8 := do
  boundsCheck offset 1 b.length
  return Machine.getUInt8 b.bytes offset

def getUInt16 (offset : Int) : Except Stop Int := do
  boundsCheck offset 2 b.length
  return Machine.getUInt16 b.bytes offset

def getInt32 (offset : Int) : Except Stop Int := do
  boundsCheck offset 4 b.length
  return Machine.getInt32 b.bytes offset

/-- `GetInt64`, and `GetInt64Volatile`. -/
def getInt64 (offset : Int) : Except Stop Int := do
  boundsCheck offset 8 b.length
  return Machine.getInt64 b.bytes offset

def putUInt8 (offset : Int) (value : UInt8) : Except Stop Buffer := do
  boundsCheck offset 1 b.length
  return { b with bytes := Machine.putUInt8 b.bytes offset value }

def putUInt16 (offset value : Int) : Except Stop Buffer := do
  boundsCheck offset 2 b.length
  return { b with bytes := put 2 b.bytes offset value }

def putInt32 (offset value : Int) : Except Stop Buffer := do
  boundsCheck offset 4 b.length
  return { b with bytes := put 4 b.bytes offset value }

def putInt64 (offset value : Int) : Except Stop Buffer := do
  boundsCheck offset 8 b.length
  return { b with bytes := put 8 b.bytes offset value }

def putBytes (index : Int) (srcBuffer : Buffer) (srcIndex length : Int) : Except Stop Buffer := do
  boundsCheck index length b.length
  boundsCheck srcIndex length srcBuffer.length
  return { b with bytes := memcpy b.bytes index srcBuffer.bytes srcIndex length }

/-- `GetBytesArray`: the array is made after the check, and `make` panics on a negative length. -/
def getBytesArray (offset length : Int) : Except Stop (List UInt8) := do
  boundsCheck offset length b.length
  if length < 0 then .error .panic
  else return read b.bytes offset length.toNat

/-- `GetBytes` into an array of `count` bytes. -/
def getBytes (offset : Int) (count : Nat) : Except Stop (List UInt8) := do
  boundsCheck offset (i32 count) b.length
  return read b.bytes offset count

/-- `WriteBytes`: the bytes that are appended to the destination. `Grow` panics on a negative count. -/
def writeBytes (offset length : Int) : Except Stop (List UInt8) := do
  boundsCheck offset length b.length
  if length < 0 then .error .panic
  else return read b.bytes offset length.toNat

end Buffer

end AeronGo.Atomic
