import AeronGo.LogBuffer.Frames
import AeronGo.Machine.Run

/-!
# Concurrent publishers on one log

`Offer`, `Offer2` and `TryClaim` of `aeron/publication.go` with the appender and `RotateLog`, as
sequences of atomic steps of any number of publishers over the shared meta data of one log. Each
read, get-and-add, compare-and-swap and frame write is one step; what lies between two of them is
local and goes with the step before it. The driver moves the publisher limit and the connected and
closed flags at any time.

The history fields are not read by any step: `terms` counts the term a partition is in without
wrapping, `claims` lists the get-and-adds, `written` the frames stored, `returned` the values
returned with what the call wrote. Payloads and reserved values are left out; the frames are those
of `LogBuffer.Frames`.
-/

namespace AeronGo.Publication

open Machine LogBuffer

/-! ## Results -/

def notConnected : Int := -1

def backPressured : Int := -2

def adminAction : Int := -3

def publicationClosed : Int := -4

def maxPositionExceeded : Int := -5

/-! ## Calls -/

inductive Call where
  | offer (length : Int)
  | offer2 (lengthOne lengthTwo : Int)
  | tryClaim (length : Int)
deriving DecidableEq, Repr

variable (p : LogParams)

namespace Call

def length : Call → Int
  | offer length => length
  | offer2 lengthOne lengthTwo => i32 (lengthOne + lengthTwo)
  | tryClaim length => length

/-- The lengths of the call are not negative, and 32-bit. -/
def Admissible : Call → Prop
  | offer length => 0 ≤ length ∧ length < 2147483648
  | offer2 lengthOne lengthTwo =>
    (0 ≤ lengthOne ∧ lengthOne < 2147483648) ∧ 0 ≤ lengthTwo ∧ lengthTwo < 2147483648
  | tryClaim length => 0 ≤ length ∧ length < 2147483648

instance : (call : Call) → Decidable call.Admissible
  | offer _ | offer2 _ _ | tryClaim _ => inferInstanceAs (Decidable (_ ∧ _))

/-- The sum of the lengths overflows: `Offer2` panics. -/
def overflows (call : Call) : Bool := call.length < 0

/-- `checkForMaxPayloadLength` of `TryClaim`, which panics. -/
def refused : Call → Bool
  | tryClaim length => p.maxPayloadLength < length
  | _ => false

/-- Whether the call compares the active term count with the term of the tail it read. -/
def checksTerm : Call → Bool
  | tryClaim _ => false
  | _ => true

/-- A message that goes out in one frame. -/
def single : Call → Bool
  | tryClaim _ => true
  | call => call.length ≤ p.maxPayloadLength

/-- `checkForMaxMessageLength`, on the fragmented path. -/
def tooLong (call : Call) : Bool :=
  !call.single p && p.maxMessageLength < call.length

/-- The bytes that the get-and-add claims. -/
def required (call : Call) : Int :=
  if call.single p then alignedFrameLength call.length
  else fragmentedLength call.length p.maxPayloadLength

/-- The frames of a successful append. -/
def frames (call : Call) (termOffset termId : Int) : List FrameHeader :=
  if call.single p then
    [⟨termOffset, i32 (call.length + headerLength), unfragmented, typeData, termId⟩]
  else
    (fragments call.length p.maxPayloadLength termOffset).map fun f =>
      ⟨f.offset, i32 (f.bytesToWrite + headerLength), f.flags, typeData, termId⟩

end Call

/-! ## An append -/

/-- What a call knows after its get-and-add. -/
structure Append where
  termCount : Int
  /-- The raw tail that the call read first. -/
  rawTail : Int
  /-- The raw tail that its get-and-add returned. -/
  claimed : Int
  resultingOffset : Int
deriving DecidableEq, Repr

/-- `position`, from the raw tail read first. -/
def tailPosition (rawTail : Int) : Int :=
  i64 (computeTermBeginPosition (termID rawTail) p.positionBitsToShift p.initialTermId + tailOffset rawTail)

/-- The result of the appender, from the raw tail that the get-and-add returned. -/
def appendResult (call : Call) (claimed : Int) : Int :=
  let resultingOffset := tailOffset claimed + call.required p
  if p.termLength < resultingOffset then endOfLogResult p.termLength (i32 (tailOffset claimed))
  else resultingOffset

/-- The frames the appender writes, from the raw tail that the get-and-add returned. -/
def appendFrames (call : Call) (claimed : Int) : List FrameHeader :=
  if p.termLength < tailOffset claimed + call.required p then
    paddingFrames p.termLength (i32 (tailOffset claimed)) (termID claimed)
  else call.frames p (i32 (tailOffset claimed)) (termID claimed)

/-- `newPosition` of a successful append. -/
def newPosition (a : Append) : Int :=
  i64 (i64 (tailPosition p a.rawTail - tailOffset a.rawTail) + a.resultingOffset)

/-! ## Publishers -/

/-- Where a publisher stands. -/
inductive Pc where
  | idle
  | entry (call : Call)
  | readLimit (call : Call)
  | readCount (call : Call) (limit : Int)
  | readTail (call : Call) (limit termCount : Int)
  | readConnected
  | add (call : Call) (termCount rawTail : Int)
  | write (left done : List FrameHeader) (a : Append)
  | rotateRead (termCount termId : Int)
  | rotateSet (termCount termId rawTail : Int)
  | rotateCount (termCount : Int)
  | panicked
deriving DecidableEq, Repr

/-- A get-and-add: the unwrapped term it fell in, the part of the term it claimed, what the appender
returns for it and the frames to be written there. -/
structure Claimed where
  term : Int
  offset : Int
  stop : Int
  result : Int
  frames : List FrameHeader
deriving DecidableEq, Repr

/-- A returned value, with the frames that the call wrote and its append if it made one. -/
structure Returned where
  value : Int
  wrote : List FrameHeader
  append : Option Append
deriving DecidableEq, Repr

structure State where
  /-- The raw tails of the partitions 0, 1 and 2. -/
  tails : Int → Int
  activeTermCount : Int
  limit : Int
  connected : Bool
  closed : Bool
  publishers : Nat → Pc
  terms : Int → Int
  claims : List Claimed
  written : List FrameHeader
  returned : List Returned

namespace State

variable (s : State) (i : Nat)

def goto (pc : Pc) : State :=
  { s with publishers := fun j => if j = i then pc else s.publishers j }

/-- The call returns without having appended. -/
def answer (value : Int) : State := { s.goto i .idle with returned := s.returned ++ [⟨value, [], none⟩] }

/-- The driver's initial tails: partition 0 in the initial term, 1 and 2 one cycle behind. -/
def initial : State where
  tails := fun j => rawTailOf (i32 (p.initialTermId + if j = 0 then 0 else j - 3))
  activeTermCount := 0
  limit := 0
  connected := false
  closed := false
  publishers := fun _ => .idle
  terms := fun j => if j = 0 then 0 else j - 3
  claims := []
  written := []
  returned := []

end State

/-! ## Steps -/

/-- The read of a partition's raw tail, and what the call decides from it. -/
def readTailStep (s : State) (i : Nat) (call : Call) (limit termCount : Int) : State :=
  let index := indexByTermCount termCount
  if index < 0 then s.goto i .panicked
  else
    let rawTail := s.tails index
    let position := tailPosition p rawTail
    if call.checksTerm ∧ termCount ≠ i32 (termID rawTail - p.initialTermId) then s.answer i adminAction
    else if limit ≤ position then
      -- `backPressureStatus`
      if p.maxPossiblePosition ≤ i64 (position + call.length) then s.answer i maxPositionExceeded
      else s.goto i .readConnected
    else if call.tooLong p then s.goto i .panicked
    else s.goto i (.add call termCount rawTail)

/-- The get-and-add. -/
def addStep (s : State) (i : Nat) (call : Call) (termCount rawTail : Int) : State :=
  let index := indexByTermCount termCount
  let claimed := s.tails index
  let frames := appendFrames p call claimed
  { s with
    tails := fun j => if j = index then i64 (claimed + call.required p) else s.tails j
    claims := s.claims ++
      [⟨s.terms index, tailOffset claimed, tailOffset claimed + call.required p,
        appendResult p call claimed, frames⟩]
    publishers := fun j =>
      if j = i then .write frames [] ⟨termCount, rawTail, claimed, appendResult p call claimed⟩
      else s.publishers j }

/-- The end of `newPosition`, once every frame is written. -/
def finishStep (s : State) (i : Nat) (done : List FrameHeader) (a : Append) : State :=
  if 0 < a.resultingOffset then
    { s.goto i .idle with returned := s.returned ++ [⟨newPosition p a, done, some a⟩] }
  else if p.maxPossiblePosition < i64 (tailPosition p a.rawTail + tailOffset a.rawTail) then
    s.answer i maxPositionExceeded
  else s.goto i (.rotateRead a.termCount (termID a.claimed))

/-- `RotateLog`: the read in its loop. -/
def rotateReadStep (s : State) (i : Nat) (termCount termId : Int) : State :=
  let index := indexByTermCount (i32 (termCount + 1))
  if index < 0 then s.goto i .panicked
  else if i32 (i32 (termId + 1) - 3) ≠ termID (s.tails index) then s.goto i (.rotateCount termCount)
  else s.goto i (.rotateSet termCount termId (s.tails index))

/-- `RotateLog`: the compare-and-swap of the next partition's tail. -/
def rotateSetStep (s : State) (i : Nat) (termCount termId rawTail : Int) : State :=
  let index := indexByTermCount (i32 (termCount + 1))
  if s.tails index = rawTail then
    { s with
      tails := fun j => if j = index then rawTailOf (i32 (termId + 1)) else s.tails j
      terms := fun j => if j = index then s.terms j + 3 else s.terms j
      publishers := fun j => if j = i then .rotateCount termCount else s.publishers j }
  else s.goto i (.rotateRead termCount termId)

/-- `RotateLog`: the compare-and-swap of the active term count. -/
def rotateCountStep (s : State) (i : Nat) (termCount : Int) : State :=
  let s := if s.activeTermCount = termCount then { s with activeTermCount := i32 (termCount + 1) } else s
  s.answer i adminAction

/-- One step of a publisher. -/
def publisherStep (s : State) (i : Nat) : Pc → Option State
  | .idle => none
  | .entry call => some <|
    if call.overflows then s.goto i .panicked
    else if s.closed then s.answer i publicationClosed
    else if call.refused p then s.goto i .panicked
    else s.goto i (.readLimit call)
  | .readLimit call => some (s.goto i (.readCount call s.limit))
  | .readCount call limit => some (s.goto i (.readTail call limit s.activeTermCount))
  | .readTail call limit termCount => some (readTailStep p s i call limit termCount)
  | .readConnected => some (s.answer i (if s.connected then backPressured else notConnected))
  | .add call termCount rawTail => some (addStep p s i call termCount rawTail)
  | .write (f :: left) done a =>
    some { s.goto i (.write left (done ++ [f]) a) with written := s.written ++ [f] }
  | .write [] done a => some (finishStep p s i done a)
  | .rotateRead termCount termId => some (rotateReadStep s i termCount termId)
  | .rotateSet termCount termId rawTail => some (rotateSetStep s i termCount termId rawTail)
  | .rotateCount termCount => some (rotateCountStep s i termCount)
  | .panicked => none

inductive Action where
  | invoke (i : Nat) (call : Call)
  | step (i : Nat)
  | driver (limit : Int) (connected closed : Bool)
deriving DecidableEq, Repr

def step (p : LogParams) (s : State) : Action → Option State
  | .invoke i call =>
    if s.publishers i = .idle ∧ call.Admissible then some (s.goto i (.entry call)) else none
  | .step i => publisherStep p s i (s.publishers i)
  | .driver limit connected closed => some { s with limit := limit, connected := connected, closed := closed }

def publisherSystem : System State Action := .ofStep (· = State.initial p) (step p)

end AeronGo.Publication
