import AeronGo.FragmentAssembler
import AeronGo.Publication.Offer

/-!
# A stream: one publisher, one image

The calls of one publisher on a log, the polls of one image of the same log, and what the media driver
does to it, interleaved call by call. What consumes the polls is a parameter: its state and its poll.
The driver moves the publisher limit and the connected flag, and zeroes parts of the partitions.

`records` is history that no step reads: for every call that returned a position, the position and
what became of it. `Driver` says what is assumed of the driver: the limit is at most half a term above
the subscriber position; nothing is zeroed that is claimed and not consumed; and a partition is zeroed
by the time the term before it is full.
-/

namespace AeronGo.Stream

open Machine Util Atomic LogBuffer

/-- What became of a position that a call returned. -/
inductive Outcome where
  | message (bytes : List UInt8)
  | pending (length : Int)
  | aborted (length : Int)
deriving DecidableEq, Repr

structure Record where
  position : Int
  outcome : Outcome
deriving DecidableEq, Repr

namespace Record

def message? (r : Record) : Option (List UInt8) :=
  match r.outcome with
  | .message bytes => some bytes
  | _ => none

def isPending (r : Record) : Bool :=
  match r.outcome with
  | .pending _ => true
  | _ => false

/-- The outcome of one position is decided. -/
def resolve (position : Int) (outcome : Outcome) (r : Record) : Record :=
  if r.position = position then { r with outcome := outcome } else r

end Record

/-- A claim that is neither committed nor aborted, with the position it was returned with. -/
structure OpenClaim where
  position : Int
  claim : Claim
deriving DecidableEq, Repr

structure State (σ : Type) where
  publication : PublicationState
  image : Image
  consumer : σ
  claims : List OpenClaim
  records : List Record

namespace State

variable {σ : Type} (p : StreamParams)

def log (s : State σ) : Log := s.publication.log

def position (s : State σ) : Int := s.image.subscriberPosition

/-- The messages offered or committed, in the order of their positions. -/
def messages (s : State σ) : List (List UInt8) := s.records.filterMap Record.message?

def initial (consumer : σ) : State σ where
  publication := ⟨Log.initial p, 0, false, false⟩
  image := ⟨false, 0⟩
  consumer := consumer
  claims := []
  records := []

def setLog (s : State σ) (log : Log) : State σ := { s with publication := { s.publication with log := log } }

/-- The call returned: a positive value is a position. -/
def returned {α : Type} (s : State σ) (r : Published α) (outcome : Outcome) : State σ :=
  { s with
    publication := r.publication
    records := if 0 < r.value then s.records ++ [⟨r.value, outcome⟩] else s.records }

/-- The claim at a place of the list is decided. -/
def resolved (s : State σ) (k : Nat) (position : Int) (outcome : Outcome) (log : Log) : State σ :=
  { s.setLog log with
    claims := s.claims.eraseIdx k
    records := s.records.map (Record.resolve position outcome) }

end State

/-- Poll an image of the log with a fragment limit, over the consumer's state. -/
abbrev Consumer (σ : Type) := (Int → Buffer) → Image → Int → σ → Except Stop (Int × Image × σ)

inductive Action where
  | offer (buffer : Buffer) (offset length : Int) (supplier : Option ReservedValueSupplier)
  | offer2 (src : TwoParts) (supplier : Option ReservedValueSupplier)
  | tryClaim (length : Int)
  | fill (k : Nat) (index : Int) (bytes : List UInt8)
  | commit (k : Nat)
  | abort (k : Nat)
  | close
  | poll (fragmentLimit : Int)
  | driver (limit : Int) (isConnected : Bool)
  | clean (index lo hi : Int)

variable {σ : Type} (p : StreamParams) (consumer : Consumer σ)

/-- Zero a part of a partition. -/
def Log.clean (log : Log) (index lo hi : Int) : Log :=
  { log with
    terms := fun j => if j = index then fun i => if lo ≤ i ∧ i < hi then 0 else log.terms j i else log.terms j }

/-- The bytes of a claim that are the message. -/
def Claim.message (c : Claim) (log : Log) : List UInt8 :=
  Machine.read (c.buffer log).bytes headerLength (c.frameLength - headerLength).toNat

def step (s : State σ) : Action → Except Stop (State σ)
  | .offer buffer offset length supplier => do
    let r ← offer p s.publication buffer offset length supplier
    return s.returned r (.message (sourceBytes buffer offset length))
  | .offer2 src supplier => do
    let r ← offer2 p s.publication src supplier
    return s.returned r (.message (twoBytes src))
  | .tryClaim length => do
    let r ← tryClaim p s.publication length
    let claimed := match r.written with
      | some (index, offset, frameLength) => [⟨r.value, ⟨index, offset, frameLength⟩⟩]
      | none => []
    return { s.returned r (.pending length) with claims := s.claims ++ claimed }
  | .fill k index bytes =>
    match s.claims[k]? with
    | some c => return s.setLog (c.claim.fill s.log index bytes)
    | none => return s
  | .commit k =>
    match s.claims[k]? with
    | some c => do
      let log ← c.claim.commit s.log
      return s.resolved k c.position (.message (c.claim.message s.log)) log
    | none => return s
  | .abort k =>
    match s.claims[k]? with
    | some c => do
      let log ← c.claim.abort s.log
      return s.resolved k c.position (.aborted (c.claim.frameLength - headerLength)) log
    | none => return s
  | .close => return { s with publication := { s.publication with isClosed := true } }
  | .poll fragmentLimit => do
    let (_, image, state) ← consumer (s.log.termBuffer p) s.image fragmentLimit s.consumer
    return { s with image := image, consumer := state }
  | .driver limit isConnected =>
    return { s with publication := { s.publication with limit := limit, isConnected := isConnected } }
  | .clean index lo hi => return s.setLog (s.log.clean index lo hi)

/-! ## What is assumed -/

/-- The arguments of a call: sources that exist, lengths that the size checks accept, a claim that is
open and stores that stay behind its header fields. -/
def Action.Admissible (s : State σ) : Action → Prop
  | .offer buffer offset length _ => Source buffer offset length ∧ length ≤ p.maxOffer
  | .offer2 src _ => TwoSources src ∧ src.lengthOne + src.lengthTwo ≤ p.maxOffer
  | .tryClaim length => 0 ≤ length ∧ length ≤ p.maxPayloadLength
  | .fill k index bytes => ∀ c, s.claims[k]? = some c → 24 ≤ index ∧ index + bytes.length ≤ c.claim.frameLength
  | _ => True

/-- The end of what is claimed, from the active term's tail. -/
def Log.claimedPosition (log : Log) : Int :=
  log.activeTermCount * p.termLength +
    min (tailOffset (log.tails (indexByTermCount log.activeTermCount))) p.termLength

/-- All bytes of a partition are zero. -/
def Log.Zeroed (log : Log) (index : Int) : Prop := ∀ i, 0 ≤ i → i < p.termLength → log.terms index i = 0

/-- If a call leaves the active term full, the partition of the next term was zeroed before. -/
def CleanAhead (s t : State σ) : Prop :=
  p.termLength ≤ tailOffset (t.log.tails (indexByTermCount s.log.activeTermCount)) →
    s.log.Zeroed p ((s.log.activeTermCount + 1) % 3)

/-- What the driver keeps to. -/
def Driver (s : State σ) (t : State σ) : Action → Prop
  | .offer _ _ _ _ => CleanAhead p s t
  | .offer2 _ _ => CleanAhead p s t
  | .tryClaim _ => CleanAhead p s t
  | .driver limit _ => limit ≤ s.position + p.termLength / 2
  | .clean index lo hi => ∀ x, s.position ≤ x → x < s.log.claimedPosition p →
      ¬(x / p.termLength % 3 = index ∧ lo ≤ x % p.termLength ∧ x % p.termLength < hi)
  | _ => True

/-- Every interleaving of admissible calls, polls and driver actions. -/
def system (initial : σ) : System (State σ) Action where
  init := (· = State.initial p initial)
  next s a t := a.Admissible p s ∧ step p consumer s a = .ok t ∧ Driver p s t a

/-! ## Executing

A step whose conditions can be computed: the arguments are in order and the call leaves room in the
term. -/

def leavesRoom (s t : State σ) : Bool :=
  tailOffset (t.log.tails (indexByTermCount s.log.activeTermCount)) < p.termLength

def Action.isCalm (s t : State σ) : Action → Bool
  | .offer buffer offset length _ => buffer.length < 2147483648 && 0 ≤ offset && 0 ≤ length &&
      offset + length ≤ buffer.length && length ≤ p.maxOffer && leavesRoom p s t
  | .tryClaim length => 0 ≤ length && length ≤ p.maxPayloadLength && leavesRoom p s t
  | .fill k index bytes => s.claims[k]?.all fun c => 24 ≤ index && index + bytes.length ≤ c.claim.frameLength
  | .driver limit _ => limit ≤ s.position + p.termLength / 2
  | .offer2 _ _ => false
  | .clean _ _ _ => false
  | _ => true

def calmStep (s : State σ) (a : Action) : Option (State σ) :=
  match step p consumer s a with
  | .ok t => if a.isCalm p s t then some t else none
  | .error _ => none

end AeronGo.Stream
