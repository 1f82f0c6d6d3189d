import AeronGo.LogBuffer.Descriptor

/-!
# The frames of an append

The arithmetic of `aeron/logbuffer/term/appender.go`: how many bytes of the term a message takes,
and which frames the appender writes there. The loops of `AppendFragmentedMessage` and
`AppendFragmentedMessage2` advance the same control variables (`fragmentLoop`); what each round
copies is in the appender itself.
-/

namespace AeronGo.LogBuffer

open Machine Util

/-- `DataFrameHeader.Length`. -/
def headerLength : Int := 32

/-- `FrameAlignment`. -/
def frameAlignment : Int := 32

def typePad : Int := 0

def typeData : Int := 1

def beginFrag : UInt8 := 0x80

def endFrag : UInt8 := 0x40

def unfragmented : UInt8 := 0x80 ||| 0x40

/-- `AppenderTripped`. -/
def appenderTripped : Int := -1

/-- `AppenderFailed`. -/
def appenderFailed : Int := -2

/-- The space of a single frame. -/
def alignedFrameLength (length : Int) : Int := alignInt32 (i32 (length + headerLength)) frameAlignment

/-- `requiredLength` of a fragmented message. -/
def fragmentedLength (length maxPayloadLength : Int) : Int :=
  let numMaxPayloads := length.tdiv maxPayloadLength
  let remainingPayload := length.tmod maxPayloadLength
  let lastFrameLength := if 0 < remainingPayload then alignedFrameLength remainingPayload else 0
  i32 (i32 (numMaxPayloads * i32 (maxPayloadLength + headerLength)) + lastFrameLength)

/-- One round of the loop over a fragmented message: the frame's offset in the term, how much of
the message it takes, its flags, and how much went before. -/
structure Fragment where
  offset : Int
  bytesToWrite : Int
  flags : UInt8
  position : Int
deriving DecidableEq, Repr

/-- The rounds of the loop. Every round takes at least one byte, so `length` rounds are enough. -/
def fragmentLoop (length maxPayloadLength : Int) : Nat → Int → Int → UInt8 → List Fragment
  | 0, _, _, _ => []
  | fuel + 1, remaining, offset, flags =>
    if 0 < remaining then
      let bytesToWrite := min remaining maxPayloadLength
      let flags := if remaining ≤ maxPayloadLength then flags ||| endFrag else flags
      ⟨offset, bytesToWrite, flags, i32 (length - remaining)⟩ ::
        fragmentLoop length maxPayloadLength fuel (i32 (remaining - bytesToWrite))
          (i32 (offset + alignedFrameLength bytesToWrite)) 0
    else []

def fragments (length maxPayloadLength termOffset : Int) : List Fragment :=
  fragmentLoop length maxPayloadLength length.toNat length termOffset beginFrag

/-! ## Frame headers -/

/-- The header of a frame as the appender leaves it. -/
structure FrameHeader where
  offset : Int
  frameLength : Int
  flags : UInt8
  frameType : Int
  termId : Int
deriving DecidableEq, Repr

namespace FrameHeader

/-- Where the next frame starts. -/
def stop (f : FrameHeader) : Int := f.offset + alignInt32 f.frameLength frameAlignment

end FrameHeader

/-- The padding frame of `handleEndOfLogCondition`, when the term has room left. -/
def paddingFrames (termLength termOffset termId : Int) : List FrameHeader :=
  if termOffset < termLength then
    [⟨termOffset, i32 (termLength - termOffset), unfragmented, typePad, termId⟩]
  else []

/-- The result of `handleEndOfLogCondition`. -/
def endOfLogResult (termLength termOffset : Int) : Int :=
  if termOffset ≤ termLength then appenderTripped else appenderFailed

end AeronGo.LogBuffer
