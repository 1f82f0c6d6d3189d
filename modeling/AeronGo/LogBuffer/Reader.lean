import AeronGo.Atomic.Buffer
import AeronGo.LogBuffer.Frames

/-!
# Reading a term

`aeron/logbuffer/term/reader.go`, the frame fields of `FrameDescriptor.go` and `Header.Position`. A
handler is given the buffer, the offset and length of the payload, and the offset of the header; what it
does is a change of its own state.
-/

namespace AeronGo.LogBuffer

open Machine Util Atomic

/-! ## Frame fields -/

def getFrameLength (buf : Buffer) (frameOffset : Int) : Except Stop Int := buf.getInt32 frameOffset

def getFlags (buf : Buffer) (frameOffset : Int) : Except Stop UInt8 := buf.getUInt8 (i32 (frameOffset + 5))

def getSessionId (buf : Buffer) (frameOffset : Int) : Except Stop Int := buf.getInt32 (i32 (frameOffset + 12))

def isPaddingFrame (buf : Buffer) (frameOffset : Int) : Except Stop Bool := do
  return (← buf.getUInt16 (i32 (frameOffset + 6))) = typePad

/-- `Header.Position`, of a header that is wrapped around a term buffer. -/
def headerPosition (p : LogParams) (buffer : Buffer) (headerOffset : Int) : Except Stop Int := do
  let frameLength ← getFrameLength buffer headerOffset
  let termId ← buffer.getInt32 (i32 (headerOffset + 20))
  return computePosition termId (alignInt32 (i32 (headerOffset + frameLength)) frameAlignment) p.positionBitsToShift
    p.initialTermId

/-! ## Read -/

variable {σ : Type}

/-- Buffer, payload offset, payload length, header offset. -/
abbrev FragmentHandler (σ : Type) := σ → Buffer → Int → Int → Int → Except Stop σ

/-- The loop of `Read` and `BoundedPoll`: frames up to an offset limit, until the fragment limit or a
frame that is not committed. The result is the new offset and the number of fragments. -/
def readFrames (buf : Buffer) (handler : FragmentHandler σ) (fragmentLimit offsetLimit : Int) :
    Nat → Int → Int → σ → Except Stop (Int × Int × σ)
  | 0, _, _, _ => .error .unfinished
  | fuel + 1, termOffset, fragmentsRead, st =>
    if fragmentsRead < fragmentLimit ∧ termOffset < offsetLimit then do
      let frameLength ← getFrameLength buf termOffset
      if frameLength ≤ 0 then return (termOffset, fragmentsRead, st)
      else
        let nextOffset := i32 (termOffset + alignInt32 frameLength frameAlignment)
        if ← isPaddingFrame buf termOffset then
          readFrames buf handler fragmentLimit offsetLimit fuel nextOffset fragmentsRead st
        else
          let st ← handler st buf (i32 (termOffset + headerLength)) (i32 (frameLength - headerLength)) termOffset
          readFrames buf handler fragmentLimit offsetLimit fuel nextOffset (fragmentsRead + 1) st
    else .ok (termOffset, fragmentsRead, st)

/-- `term.Read`. Every frame takes at least 32 bytes, so a round for every byte is more than enough. -/
def read (buf : Buffer) (termOffset : Int) (handler : FragmentHandler σ) (fragmentLimit : Int) (st : σ) :
    Except Stop (Int × Int × σ) :=
  readFrames buf handler fragmentLimit buf.length (buf.length.toNat + 1) termOffset 0 st

end AeronGo.LogBuffer
