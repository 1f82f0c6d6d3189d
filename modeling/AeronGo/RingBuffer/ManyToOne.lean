import AeronGo.Atomic.Buffer

/-!
# The ring of driver commands

`aeron/ringbuffer`: records in a buffer, behind them a trailer with the positions of the producers and of
the consumer. A call runs alone: nothing else moves the tail between its load and the swap, so the loop of
`claimCapacity` is passed once. The consumer is the media driver and is not part of the source.
-/

namespace AeronGo.RingBuffer

open Machine Atomic Util

/-! ## Records -/

/-- `RecordDescriptor.HeaderLength`. -/
def headerLength : Int := 8

/-- `RecordDescriptor.RecordAlignment`. -/
def recordAlignment : Int := 8

/-- `RecordDescriptor.PaddingMsgTypeID`. -/
def paddingMsgTypeID : Int := -1

def lengthOffset (recordOffset : Int) : Int := recordOffset

def encodedMsgOffset (recordOffset : Int) : Int := i32 (recordOffset + headerLength)

/-- `makeHeader`: the type above the length; the halves do not overlap. -/
def makeHeader (length msgTypeID : Int) : Int := i64 (msgTypeID % 4294967296 * 4294967296 + length % 4294967296)

def checkMsgTypeID (msgTypeID : Int) : Except Stop Unit := if msgTypeID < 1 then .error .panic else .ok ()

/-! ## The ring -/

def insufficientCapacity : Int := -2

/-- `descriptor.trailerLength`. -/
def trailerLength : Int := 768

structure ManyToOne where
  buffer : Buffer
  capacity : Int
  maxMsgLength : Int
  headPositionIndex : Int
  headCachePositionIndex : Int
  tailPositionIndex : Int
  correlationIDCounterIndex : Int

namespace ManyToOne

/-- `Init`. It asks `IsPowerOfTwo` about the capacity, and drops the answer. -/
def init (buffer : Buffer) : Except Stop ManyToOne :=
  let capacity := i32 (buffer.length - trailerLength)
  if capacity ≤ 0 then .error .panic
  else .ok
    { buffer
      capacity
      maxMsgLength := capacity / 8
      tailPositionIndex := i32 (capacity + 128)
      headCachePositionIndex := i32 (capacity + 256)
      headPositionIndex := i32 (capacity + 384)
      correlationIDCounterIndex := i32 (capacity + 512) }

variable (buf : ManyToOne)

/-- `NextCorrelationID`, by `GetAndAddInt64`. -/
def nextCorrelationID : Except Stop (Int × ManyToOne) := do
  let id ← buf.buffer.getInt64 buf.correlationIDCounterIndex
  let buffer ← buf.buffer.putInt64 buf.correlationIDCounterIndex (i64 (id + 1))
  return (id, { buf with buffer })

/-- A position of the consumer that leaves enough room: the one at hand, or else the one that is read again and then
cached. -/
def headWith (enough : Int → Bool) (head : Int) : Except Stop (Option Int × ManyToOne) :=
  if enough head then .ok (some head, buf)
  else do
    let head ← buf.buffer.getInt64 buf.headPositionIndex
    if enough head then
      let buffer ← buf.buffer.putInt64 buf.headCachePositionIndex head
      return (some head, { buf with buffer })
    else return (none, buf)

/-- The end of `claimCapacity`: the tail is moved, and what is skipped at the end of the buffer becomes padding. -/
def moveTail (tail requiredCapacity tailIndex padding : Int) : Except Stop (Int × ManyToOne) := do
  let buffer ← buf.buffer.putInt64 buf.tailPositionIndex (i64 (tail + requiredCapacity + padding))
  if padding = 0 then return (tailIndex, { buf with buffer })
  else
    let buffer ← buffer.putInt64 tailIndex (makeHeader padding paddingMsgTypeID)
    return (0, { buf with buffer })

def claimCapacity (requiredCapacity : Int) : Except Stop (Int × ManyToOne) := do
  let mask := i32 (buf.capacity - 1)
  let head ← buf.buffer.getInt64 buf.headCachePositionIndex
  let tail ← buf.buffer.getInt64 buf.tailPositionIndex
  match ← buf.headWith (fun head => requiredCapacity ≤ i32 (buf.capacity - i32 (i64 (tail - head)))) head with
  | (none, buf) => return (insufficientCapacity, buf)
  | (some head, buf) =>
    let tailIndex := i32 (and64 tail mask)
    let toBufferEndLength := i32 (buf.capacity - tailIndex)
    if requiredCapacity ≤ toBufferEndLength then buf.moveTail tail requiredCapacity tailIndex 0
    else
      -- the record goes to the start of the buffer, where the consumer must have made room
      match ← buf.headWith (fun head => requiredCapacity ≤ i32 (and64 head mask)) head with
      | (none, buf) => return (insufficientCapacity, buf)
      | (some _, buf) => buf.moveTail tail requiredCapacity tailIndex toBufferEndLength

def checkMsgLength (length : Int) : Except Stop Unit :=
  if buf.maxMsgLength < length then .error .panic else .ok ()

/-- What the record of a message takes. -/
def requiredCapacity (length : Int) : Int := alignInt32 (i32 (length + headerLength)) recordAlignment

/-- The rest of `Write`, at the claimed index: the header with a negative length, the message, and the length. -/
def putRecord (recordIndex msgTypeID : Int) (srcBuffer : Buffer) (srcIndex length : Int) : Except Stop ManyToOne := do
  let recordLength := i32 (length + headerLength)
  let buffer ← buf.buffer.putInt64 recordIndex (makeHeader (i32 (-recordLength)) msgTypeID)
  let buffer ← buffer.putBytes (encodedMsgOffset recordIndex) srcBuffer srcIndex length
  let buffer ← buffer.putInt32 (lengthOffset recordIndex) recordLength
  return { buf with buffer }

def write (msgTypeID : Int) (srcBuffer : Buffer) (srcIndex length : Int) : Except Stop (Bool × ManyToOne) := do
  checkMsgTypeID msgTypeID
  buf.checkMsgLength length
  let (recordIndex, buf) ← buf.claimCapacity (requiredCapacity length)
  if recordIndex = insufficientCapacity then return (false, buf)
  else
    let buf ← buf.putRecord recordIndex msgTypeID srcBuffer srcIndex length
    return (true, buf)

end ManyToOne

end AeronGo.RingBuffer
