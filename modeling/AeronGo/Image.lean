import AeronGo.LogBuffer.Reader

/-!
# Images

`aeron/image_impl.go`: polling the log from the subscriber position on. The term buffers are those of
the three partitions; an index that `FastMod3` cannot give is a panic.
-/

namespace AeronGo

open Machine Util Atomic LogBuffer

structure Image where
  isClosed : Bool
  subscriberPosition : Int
deriving DecidableEq, Repr

namespace Image

variable {σ : Type} (p : LogParams) (termBuffers : Int → Buffer)

/-- `indexByPosition`, on the position as an unsigned word. -/
def indexByPosition (position : Int) : Except Stop Int :=
  match fastMod3 ((position % 18446744073709551616).toNat >>> p.positionBitsToShift.toNat) with
  | some index => .ok index
  | none => .error .panic

/-- `int32(position) & termLengthMask`. -/
def termOffset (position : Int) : Int := and32 (i32 position) (p.termLength - 1)

/-- The subscriber position is set only forward. -/
def advance (image : Image) (position newPosition : Int) : Image :=
  if position < newPosition then { image with subscriberPosition := newPosition } else image

def poll (image : Image) (handler : FragmentHandler σ) (fragmentLimit : Int) (st : σ) :
    Except Stop (Int × Image × σ) :=
  if image.isClosed then .ok (0, image, st)
  else do
    let position := image.subscriberPosition
    let offset := termOffset p position
    let index ← indexByPosition p position
    let (newOffset, result, st) ← read (termBuffers index) offset handler fragmentLimit st
    return (result, image.advance position (i64 (position + i32 (newOffset - offset))), st)

def boundedPoll (image : Image) (handler : FragmentHandler σ) (limitPosition fragmentLimit : Int) (st : σ) :
    Except Stop (Int × Image × σ) :=
  if image.isClosed then .ok (0, image, st)
  else do
    let initialPosition := image.subscriberPosition
    let initialOffset := termOffset p initialPosition
    let index ← indexByPosition p initialPosition
    let capacity := (termBuffers index).length
    let limitOffset := i32 (i32 (i64 (limitPosition - initialPosition)) + initialOffset)
    let limitOffset := if capacity < limitOffset then capacity else limitOffset
    let (offset, fragmentsRead, st) ← readFrames (termBuffers index) handler fragmentLimit limitOffset
      (capacity.toNat + 1) initialOffset 0 st
    return (fragmentsRead,
      image.advance initialPosition (i64 (initialPosition + i32 (offset - initialOffset))), st)

/-! ## Controlled polling -/

inductive ControlledPollAction where
  | abort
  | break
  | commit
  | continue
deriving DecidableEq, Repr

/-- A controlled handler also sees the subscriber position as it is when it is called. -/
abbrev ControlledFragmentHandler (σ : Type) :=
  σ → Int → Buffer → Int → Int → Int → Except Stop (ControlledPollAction × σ)

/-- The variables of the loop of `ControlledPoll`. -/
structure ControlledLoop (σ : Type) where
  fragmentsRead : Int
  initialPosition : Int
  initialOffset : Int
  offset : Int
  image : Image
  state : σ

/-- What the loop does with the action that a fragment was answered with: `true` goes on. -/
def ControlledLoop.act (l : ControlledLoop σ) (alignedLength : Int) : ControlledPollAction → Bool × ControlledLoop σ
  | .abort =>
    (false, { l with fragmentsRead := l.fragmentsRead - 1, offset := i32 (l.offset - alignedLength) })
  | .break => (false, l)
  | .commit =>
    let initialPosition := i64 (l.initialPosition + i32 (l.offset - l.initialOffset))
    (true, { l with
      initialPosition := initialPosition
      initialOffset := l.offset
      image := { l.image with subscriberPosition := initialPosition } })
  | .continue => (true, l)

def controlledFrames (buf : Buffer) (handler : ControlledFragmentHandler σ) (fragmentLimit : Int) :
    Nat → ControlledLoop σ → Except Stop (ControlledLoop σ)
  | 0, _ => .error .unfinished
  | fuel + 1, l =>
    if l.fragmentsRead < fragmentLimit ∧ l.offset < buf.length then do
      let length ← getFrameLength buf l.offset
      if length ≤ 0 then return l
      else
        let frameOffset := l.offset
        let alignedLength := alignInt32 length frameAlignment
        let l := { l with offset := i32 (l.offset + alignedLength) }
        if ← isPaddingFrame buf frameOffset then controlledFrames buf handler fragmentLimit fuel l
        else
          let l := { l with fragmentsRead := l.fragmentsRead + 1 }
          let (action, st) ← handler l.state l.image.subscriberPosition buf (i32 (frameOffset + headerLength))
            (i32 (length - headerLength)) frameOffset
          match ControlledLoop.act { l with state := st } alignedLength action with
          | (true, l) => controlledFrames buf handler fragmentLimit fuel l
          | (false, l) => return l
    else .ok l

def controlledPoll (image : Image) (handler : ControlledFragmentHandler σ) (fragmentLimit : Int) (st : σ) :
    Except Stop (Int × Image × σ) :=
  if image.isClosed then .ok (0, image, st)
  else do
    let initialPosition := image.subscriberPosition
    let initialOffset := termOffset p initialPosition
    let index ← indexByPosition p initialPosition
    let l ← controlledFrames (termBuffers index) handler fragmentLimit ((termBuffers index).length.toNat + 1)
      ⟨0, initialPosition, initialOffset, initialOffset, image, st⟩
    return (l.fragmentsRead,
      l.image.advance l.initialPosition (i64 (l.initialPosition + i32 (l.offset - l.initialOffset))), l.state)

end Image

end AeronGo
