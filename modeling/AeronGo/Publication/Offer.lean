import AeronGo.LogBuffer.Appender
import AeronGo.Publication.Concurrent

/-!
# Offers of one publisher

`Offer`, `Offer2` and `TryClaim` of `aeron/publication.go`, `RotateLog` of the descriptor and `Claim` of
`logbuffer/claim.go` with the bytes they store, one call at a time. The calls share `publish`: the
reads of the log's meta data, back pressure, and the new position. `Publication.Concurrent` has the
same calls step by step, without the bytes.
-/

namespace AeronGo.Stream

open Machine Util Atomic LogBuffer
open AeronGo.Publication (notConnected backPressured adminAction publicationClosed maxPositionExceeded tailPosition)

/-- A log, and the ids that go into its default header. The MTU is any that a log may have: the code
does not compare it with the term length. -/
structure StreamParams extends LogParams where
  sessionID : Int
  streamID : Int
  sessionID_range : I32 sessionID

/-- The term partitions with their tails, and the active term count. -/
structure Log where
  terms : Int → Memory
  tails : Int → Int
  activeTermCount : Int

structure PublicationState where
  log : Log
  limit : Int
  isConnected : Bool
  isClosed : Bool

variable (p : StreamParams)

namespace Log

/-- A zeroed log with the driver's initial tails. -/
def initial : Log where
  terms := fun _ _ => 0
  tails := fun j => rawTailOf (i32 (p.initialTermId + if j = 0 then 0 else j - 3))
  activeTermCount := 0

def termBuffer (log : Log) (index : Int) : Buffer := ⟨log.terms index, p.termLength⟩

def appender (log : Log) (index : Int) : Appender := ⟨log.termBuffer p index, log.tails index, ⟨p.sessionID, p.streamID⟩⟩

/-- What an appender has done to its partition. -/
def setAppender (log : Log) (index : Int) (a : Appender) : Log :=
  { log with
    terms := fun j => if j = index then a.termBuffer.bytes else log.terms j
    tails := fun j => if j = index then a.rawTail else log.tails j }

/-- `RotateLog`. With one publisher both compare-and-swaps see what was read. -/
def rotateLog (log : Log) (currentTermCount currentTermId : Int) : Except Stop Log :=
  let nextTermId := i32 (currentTermId + 1)
  let nextTermCount := i32 (currentTermCount + 1)
  let nextIndex := indexByTermCount nextTermCount
  let expectedTermId := i32 (nextTermId - 3)
  if nextIndex < 0 then .error .panic
  else
    let log :=
      if expectedTermId ≠ termID (log.tails nextIndex) then log
      else { log with tails := fun j => if j = nextIndex then rawTailOf nextTermId else log.tails j }
    if log.activeTermCount = currentTermCount then .ok { log with activeTermCount := nextTermCount } else .ok log

end Log

/-! ## Publishing -/

/-- `newPosition`. -/
def newPosition (log : Log) (termCount termOffset termId position resultingOffset : Int) : Except Stop (Int × Log) :=
  if 0 < resultingOffset then .ok (i64 (i64 (position - termOffset) + resultingOffset), log)
  else if p.maxPossiblePosition < i64 (position + termOffset) then .ok (maxPositionExceeded, log)
  else do
    let log ← log.rotateLog termCount termId
    return (adminAction, log)

def backPressureStatus (isConnected : Bool) (currentPosition messageLength : Int) : Int :=
  if p.maxPossiblePosition ≤ i64 (currentPosition + messageLength) then maxPositionExceeded
  else if isConnected then backPressured
  else notConnected

/-- What an append call returns: its value, and the partition and result of the append it made. -/
structure Published (α : Type) where
  value : Int
  written : Option (Int × α)
  publication : PublicationState

/-- The calls' common part. `TryClaim` does not compare the term count with the tail's term. -/
def publish {α : Type} (pub : PublicationState) (checksTerm : Bool) (length : Int)
    (append : Appender → Except Stop (Appended α)) : Except Stop (Published α) :=
  let termCount := pub.log.activeTermCount
  let termIndex := indexByTermCount termCount
  if termIndex < 0 then .error .panic
  else
    let rawTail := pub.log.tails termIndex
    let termOffset := tailOffset rawTail
    let position := tailPosition p.toLogParams rawTail
    if checksTerm ∧ termCount ≠ i32 (termID rawTail - p.initialTermId) then .ok ⟨adminAction, none, pub⟩
    else if pub.limit ≤ position then .ok ⟨backPressureStatus p pub.isConnected position length, none, pub⟩
    else do
      let r ← append (pub.log.appender p termIndex)
      let (value, log) ← newPosition p (pub.log.setAppender termIndex r.appender) termCount termOffset r.termID
        position r.resultingOffset
      return ⟨value, r.written.map fun x => (termIndex, x), { pub with log := log }⟩

def offer (pub : PublicationState) (buffer : Buffer) (offset length : Int)
    (reservedValueSupplier : Option ReservedValueSupplier) : Except Stop (Published Unit) :=
  if pub.isClosed then .ok ⟨publicationClosed, none, pub⟩
  else
    let supplier := reservedValueSupplier.getD defaultReservedValueSupplier
    publish p pub true length fun a =>
      if length ≤ p.maxPayloadLength then a.appendUnfragmentedMessage buffer offset length (some supplier)
      else if p.maxMessageLength < length then .error .panic
      else a.appendFragmentedMessage buffer offset length p.maxPayloadLength supplier

def offer2 (pub : PublicationState) (src : TwoParts)
    (reservedValueSupplier : Option ReservedValueSupplier) : Except Stop (Published Unit) :=
  if src.lengthOne < 0 then .ok ⟨0, none, pub⟩
  else if src.lengthTwo < 0 then .ok ⟨0, none, pub⟩
  else
    let length := i32 (src.lengthOne + src.lengthTwo)
    if length < 0 then .error .panic
    else if pub.isClosed then .ok ⟨publicationClosed, none, pub⟩
    else
      let supplier := reservedValueSupplier.getD defaultReservedValueSupplier
      publish p pub true length fun a =>
        if length ≤ p.maxPayloadLength then a.appendUnfragmentedMessage2 src (some supplier)
        else if p.maxMessageLength < length then .error .panic
        else a.appendFragmentedMessage2 src p.maxPayloadLength supplier

/-- The longest message that the size checks of an offer accept: one that fits a frame is not compared
with `maxMessageLength`. -/
def StreamParams.maxOffer : Int := max p.maxMessageLength p.maxPayloadLength

def tryClaim (pub : PublicationState) (length : Int) : Except Stop (Published (Int × Int)) :=
  if pub.isClosed then .ok ⟨publicationClosed, none, pub⟩
  else if p.maxPayloadLength < length then .error .panic
  else publish p pub false length (Appender.claim · length)

/-! ## Claims -/

/-- A claim is a buffer over its frame, within a partition. -/
structure Claim where
  termIndex : Int
  offset : Int
  frameLength : Int
deriving DecidableEq, Repr

namespace Claim

variable (c : Claim) (log : Log)

def buffer : Buffer := ⟨fun i => log.terms c.termIndex (c.offset + i), c.frameLength⟩

/-- The log after stores through the claim's buffer. -/
def setBuffer (b : Buffer) : Log :=
  { log with terms := fun j => if j = c.termIndex then fun i => b.bytes (i - c.offset) else log.terms j }

def commit : Except Stop Log := do
  let b ← (c.buffer log).putInt32 0 c.frameLength
  return c.setBuffer log b

def abort : Except Stop Log := do
  let b ← (c.buffer log).putUInt16 6 typePad
  let b ← b.putInt32 0 c.frameLength
  return c.setBuffer log b

/-- The owner's stores through `Buffer()` and `SetReservedValue`: behind the fields the log depends on,
within the claim. -/
def fill (index : Int) (bytes : List UInt8) : Log :=
  c.setBuffer log { c.buffer log with bytes := write (c.buffer log).bytes index bytes }

end Claim

end AeronGo.Stream
