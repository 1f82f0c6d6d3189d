import AeronGo.Publication.Concurrent

/-!
# Reading the position of a publication

`Position` of `aeron/publication.go`, called again and again while publishers work on the log: it reads the
closed flag, the active term count and the raw tail of that count's partition, one after the other. The
samples are what the calls on the open publication returned, each with the tail that it was computed from.
-/

namespace AeronGo.Publication

open Machine LogBuffer

/-- Where the caller stands. -/
inductive Sampler where
  | idle
  | readCount
  | readTail (termCount : Int)
  | panicked
deriving DecidableEq, Repr

structure Sample where
  rawTail : Int
  value : Int
deriving DecidableEq, Repr

structure Sampled where
  log : State
  sampler : Sampler
  samples : List Sample

inductive SampledAction where
  | publish (a : Action)
  | call
  | read
deriving DecidableEq, Repr

namespace Sampled

/-- `Position`, step by step. A closed publication answers at once, with no position. -/
def step (p : LogParams) (s : Sampled) : SampledAction → Option Sampled
  | .publish a => (Publication.step p s.log a).map fun log => { s with log := log }
  | .call =>
    if s.sampler = .idle then some (if s.log.closed then s else { s with sampler := .readCount })
    else none
  | .read =>
    match s.sampler with
    | .readCount => some { s with sampler := .readTail s.log.activeTermCount }
    | .readTail termCount =>
      let index := indexByTermCount termCount
      if index < 0 then some { s with sampler := .panicked }
      else
        let rawTail := s.log.tails index
        some { s with sampler := .idle, samples := s.samples ++ [⟨rawTail, tailPosition p rawTail⟩] }
    | _ => none

def initial (p : LogParams) : Sampled := ⟨State.initial p, .idle, []⟩

def system (p : LogParams) : System Sampled SampledAction := .ofStep (· = initial p) (step p)

end Sampled

/-- The end position of the term that a tail is in. -/
def termEnd (p : LogParams) (rawTail : Int) : Int :=
  computeTermBeginPosition (termID rawTail) p.positionBitsToShift p.initialTermId + p.termLength

end AeronGo.Publication
