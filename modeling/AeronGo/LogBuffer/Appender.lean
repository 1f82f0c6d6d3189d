import AeronGo.Atomic.Buffer
import AeronGo.LogBuffer.Frames

/-!
# The term appender

`aeron/logbuffer/term/appender.go` with the bytes it stores, for one caller at a time. The five append
functions have one skeleton, `Appender.append`: a get-and-add on the tail, the end-of-log condition,
or the stores of the function itself; each keeps its own stores. The loops over the fragments of a
message run over `LogBuffer.fragments`, which are their control variables.

A supplier of reserved values reads the term buffer and writes nothing.
-/

namespace AeronGo.LogBuffer

open Machine Util Atomic

abbrev ReservedValueSupplier := Buffer → Int → Int → Int

def defaultReservedValueSupplier : ReservedValueSupplier := fun _ _ _ => 0

/-! ## Sources -/

/-- A part of a buffer to be copied from exists. -/
structure Source (b : Buffer) (offset length : Int) : Prop where
  length_lt : b.length < 2147483648
  offset_nonneg : 0 ≤ offset
  length_nonneg : 0 ≤ length
  inside : offset + length ≤ b.length

/-- The bytes of a source. -/
def sourceBytes (b : Buffer) (offset length : Int) : List UInt8 := Machine.read b.bytes offset length.toNat

/-- The two parts of `Offer2`. -/
structure TwoParts where
  bufferOne : Buffer
  offsetOne : Int
  lengthOne : Int
  bufferTwo : Buffer
  offsetTwo : Int
  lengthTwo : Int

/-- Both parts exist. -/
structure TwoSources (src : TwoParts) : Prop where
  one : Source src.bufferOne src.offsetOne src.lengthOne
  two : Source src.bufferTwo src.offsetTwo src.lengthTwo

/-- The bytes of both parts. -/
def twoBytes (src : TwoParts) : List UInt8 :=
  sourceBytes src.bufferOne src.offsetOne src.lengthOne ++ sourceBytes src.bufferTwo src.offsetTwo src.lengthTwo

/-! ## Frame fields -/

def setFrameLength (buf : Buffer) (frameOffset frameLength : Int) : Except Stop Buffer :=
  buf.putInt32 frameOffset frameLength

def setFrameType (buf : Buffer) (frameOffset type : Int) : Except Stop Buffer :=
  buf.putUInt16 (i32 (frameOffset + 6)) type

def frameFlags (buf : Buffer) (frameOffset : Int) (flags : UInt8) : Except Stop Buffer :=
  buf.putUInt8 (i32 (frameOffset + 5)) flags

def putReservedValue (buf : Buffer) (frameOffset value : Int) : Except Stop Buffer :=
  buf.putInt64 (i32 (frameOffset + 24)) value

structure HeaderWriter where
  sessionID : Int
  streamID : Int
deriving DecidableEq, Repr

/-- `headerWriter.write`: the length goes in negated, so that no reader takes the frame yet. -/
def HeaderWriter.write (header : HeaderWriter) (termBuffer : Buffer) (offset length termID : Int) :
    Except Stop Buffer := do
  let b ← termBuffer.putInt32 offset (i32 (-length))
  let b ← b.putUInt8 (i32 (offset + 4)) 0
  let b ← b.putUInt8 (i32 (offset + 5)) unfragmented
  let b ← b.putUInt16 (i32 (offset + 6)) typeData
  let b ← b.putInt32 (i32 (offset + 8)) offset
  let b ← b.putInt32 (i32 (offset + 12)) header.sessionID
  let b ← b.putInt32 (i32 (offset + 16)) header.streamID
  b.putInt32 (i32 (offset + 20)) termID

/-! ## The skeleton -/

structure Appender where
  termBuffer : Buffer
  rawTail : Int
  headerWriter : HeaderWriter

/-- What an append leaves behind. -/
structure Appended (α : Type) where
  appender : Appender
  resultingOffset : Int
  termID : Int
  written : Option α

def handleEndOfLogCondition (termID : Int) (termBuffer : Buffer) (termOffset : Int) (header : HeaderWriter)
    (termLength : Int) : Except Stop (Int × Buffer) :=
  if termOffset ≤ termLength then
    if termOffset < termLength then do
      let paddingLength := i32 (termLength - termOffset)
      let b ← header.write termBuffer termOffset paddingLength termID
      let b ← setFrameType b termOffset typePad
      let b ← setFrameLength b termOffset paddingLength
      return (appenderTripped, b)
    else return (appenderTripped, termBuffer)
  else return (appenderFailed, termBuffer)

namespace Appender

variable {α : Type} (a : Appender)

/-- Claim the required length from the tail, then store the frames at the claimed offset or end the
log. -/
def append (requiredLength : Int) (store : Buffer → Int → Int → Except Stop (Buffer × α)) : Except Stop (Appended α) :=
  let rawTail := a.rawTail
  let tail := i64 (rawTail + requiredLength)
  let termLength := a.termBuffer.length
  let termID := termID rawTail
  let termOffset := tailOffset rawTail
  let resultingOffset := i64 (termOffset + requiredLength)
  if termLength < resultingOffset then do
    let (resultingOffset, b) ←
      handleEndOfLogCondition termID a.termBuffer (i32 termOffset) a.headerWriter termLength
    return ⟨{ a with termBuffer := b, rawTail := tail }, resultingOffset, termID, none⟩
  else do
    let (b, x) ← store a.termBuffer (i32 termOffset) termID
    return ⟨{ a with termBuffer := b, rawTail := tail }, resultingOffset, termID, some x⟩

/-! ## Claims -/

/-- The claim wraps the whole frame: its offset and its length. -/
def storeClaim (header : HeaderWriter) (frameLength : Int) (b : Buffer) (offset termID : Int) :
    Except Stop (Buffer × Int × Int) := do
  let b ← header.write b offset frameLength termID
  boundsCheck offset frameLength b.length
  return (b, offset, frameLength)

/-- `Claim`. -/
def claim (length : Int) : Except Stop (Appended (Int × Int)) :=
  let frameLength := i32 (length + headerLength)
  a.append (alignInt32 frameLength frameAlignment) (storeClaim a.headerWriter frameLength)

/-! ## Messages in one frame -/

/-- The supplier may be nil where a message goes out in one frame. -/
def supplyReserved (b : Buffer) (offset frameLength : Int) : Option ReservedValueSupplier → Except Stop Buffer
  | some supplier => putReservedValue b offset (supplier b offset frameLength)
  | none => return b

def storeMessage (header : HeaderWriter) (frameLength : Int) (srcBuffer : Buffer) (srcOffset length : Int)
    (supplier : Option ReservedValueSupplier) (b : Buffer) (offset termID : Int) : Except Stop (Buffer × Unit) := do
  let b ← header.write b offset frameLength termID
  let b ← b.putBytes (i32 (offset + headerLength)) srcBuffer srcOffset length
  let b ← supplyReserved b offset frameLength supplier
  let b ← setFrameLength b offset frameLength
  return (b, ())

def appendUnfragmentedMessage (srcBuffer : Buffer) (srcOffset length : Int)
    (supplier : Option ReservedValueSupplier) : Except Stop (Appended Unit) :=
  let frameLength := i32 (length + headerLength)
  a.append (alignInt32 frameLength frameAlignment)
    (storeMessage a.headerWriter frameLength srcBuffer srcOffset length supplier)

def storeMessage2 (header : HeaderWriter) (frameLength : Int) (src : TwoParts)
    (supplier : Option ReservedValueSupplier) (b : Buffer) (offset termID : Int) : Except Stop (Buffer × Unit) := do
  let dataOffset := i32 (offset + headerLength)
  let b ← header.write b offset frameLength termID
  let b ← b.putBytes dataOffset src.bufferOne src.offsetOne src.lengthOne
  let b ← b.putBytes (i32 (dataOffset + src.lengthOne)) src.bufferTwo src.offsetTwo src.lengthTwo
  let b ← supplyReserved b offset frameLength supplier
  let b ← setFrameLength b offset frameLength
  return (b, ())

def appendUnfragmentedMessage2 (src : TwoParts) (supplier : Option ReservedValueSupplier) :
    Except Stop (Appended Unit) :=
  let frameLength := i32 (i32 (src.lengthOne + src.lengthTwo) + headerLength)
  a.append (alignInt32 frameLength frameAlignment) (storeMessage2 a.headerWriter frameLength src supplier)

/-! ## Fragmented messages -/

/-- The end of a round: flags, reserved value, and the length that commits the frame. -/
def commitFragment (b : Buffer) (f : Fragment) (supplier : ReservedValueSupplier) : Except Stop Buffer := do
  let frameLength := i32 (f.bytesToWrite + headerLength)
  let b ← frameFlags b f.offset f.flags
  let b ← putReservedValue b f.offset (supplier b f.offset frameLength)
  setFrameLength b f.offset frameLength

/-- The loop over the fragments: header, payload, commit. The payload is copied by the function itself,
which keeps its own place in the source. -/
def writeFragments {τ : Type} (header : HeaderWriter) (termID : Int) (supplier : ReservedValueSupplier)
    (copy : Buffer → Fragment → τ → Except Stop (Buffer × τ)) :
    List Fragment → Buffer → τ → Except Stop (Buffer × τ)
  | [], b, place => .ok (b, place)
  | f :: rest, b, place => do
    let b ← header.write b f.offset (i32 (f.bytesToWrite + headerLength)) termID
    let (b, place) ← copy b f place
    let b ← commitFragment b f supplier
    writeFragments header termID supplier copy rest b place

def copyOne (srcBuffer : Buffer) (srcOffset : Int) (b : Buffer) (f : Fragment) (_ : Unit) :
    Except Stop (Buffer × Unit) := do
  let b ← b.putBytes (i32 (f.offset + headerLength)) srcBuffer (i32 (srcOffset + f.position)) f.bytesToWrite
  return (b, ())

/-- The frames of a fragmented message, from a place at its start. -/
def storeFragments {τ : Type} (header : HeaderWriter) (length maxPayloadLength : Int)
    (supplier : ReservedValueSupplier) (copy : Buffer → Fragment → τ → Except Stop (Buffer × τ)) (place : τ)
    (b : Buffer) (termOffset termID : Int) : Except Stop (Buffer × Unit) := do
  let (b, _) ← writeFragments header termID supplier copy (fragments length maxPayloadLength termOffset) b place
  return (b, ())

def appendFragmentedMessage (srcBuffer : Buffer) (srcOffset length maxPayloadLength : Int)
    (supplier : ReservedValueSupplier) : Except Stop (Appended Unit) :=
  a.append (fragmentedLength length maxPayloadLength)
    (storeFragments a.headerWriter length maxPayloadLength supplier (copyOne srcBuffer srcOffset) ())

/-- The inner loop of `AppendFragmentedMessage2`: what is left of the first part, then the second. -/
def copyParts (src : TwoParts) (bytesToWrite : Int) :
    Nat → Int → Int → Int → Int → Buffer → Except Stop (Buffer × Int × Int)
  | 0, _, _, _, _, _ => .error .unfinished
  | fuel + 1, bytesWritten, payloadOffset, posOne, posTwo, b =>
    if bytesWritten < bytesToWrite then
      let remainingOne := i32 (src.lengthOne - posOne)
      if 0 < remainingOne then do
        let numBytes := min (i32 (bytesToWrite - bytesWritten)) remainingOne
        let b ← b.putBytes payloadOffset src.bufferOne (i32 (src.offsetOne + posOne)) numBytes
        copyParts src bytesToWrite fuel (i32 (bytesWritten + numBytes)) (i32 (payloadOffset + numBytes))
          (i32 (posOne + numBytes)) posTwo b
      else do
        let numBytes := min (i32 (bytesToWrite - bytesWritten)) (i32 (src.lengthTwo - posTwo))
        let b ← b.putBytes payloadOffset src.bufferTwo (i32 (src.offsetTwo + posTwo)) numBytes
        copyParts src bytesToWrite fuel (i32 (bytesWritten + numBytes)) (i32 (payloadOffset + numBytes)) posOne
          (i32 (posTwo + numBytes)) b
    else .ok (b, posOne, posTwo)

/-- A round's copy: `posOne` and `posTwo` go on from round to round. -/
def copyTwo (src : TwoParts) (b : Buffer) (f : Fragment) (pos : Int × Int) : Except Stop (Buffer × Int × Int) :=
  copyParts src f.bytesToWrite (f.bytesToWrite.toNat + 1) 0 (i32 (f.offset + headerLength)) pos.1 pos.2 b

def appendFragmentedMessage2 (src : TwoParts) (maxPayloadLength : Int)
    (supplier : ReservedValueSupplier) : Except Stop (Appended Unit) :=
  let length := i32 (src.lengthOne + src.lengthTwo)
  a.append (fragmentedLength length maxPayloadLength)
    (storeFragments a.headerWriter length maxPayloadLength supplier (copyTwo src) (0, 0))

end Appender

end AeronGo.LogBuffer
