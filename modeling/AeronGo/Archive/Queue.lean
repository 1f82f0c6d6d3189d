import AeronGo.FragmentAssembler

/-!
# The response image as a queue

What waits on the one image of a control subscription, in the order of the stream, and `ControlledPoll`
over it. A poll reads in one term: it passes padding without counting it, and where the term ends the next
poll goes on in the next one. The assembler keeps the builder of the image's session.
-/

namespace AeronGo.Archive

open LogBuffer
open Image (ControlledPollAction)

inductive Item where
  | fragment (flags : UInt8) (payload : List UInt8)
  | padding
  | termEnd
deriving DecidableEq, Repr

/-- A controlled handler, on the flags and the payload of a fragment. -/
abbrev Handler (σ : Type) := σ → UInt8 → List UInt8 → ControlledPollAction × σ

variable {σ δ : Type}

/-- The loop of `ControlledPoll`: the number of fragments read, the handler's state, and what is left. -/
def pollTerm (handler : Handler σ) : Nat → σ → List Item → Nat × σ × List Item
  | _, st, [] => (0, st, [])
  | _, st, .termEnd :: rest => (0, st, .termEnd :: rest)
  | 0, st, item :: rest => (0, st, item :: rest)
  | limit + 1, st, .padding :: rest => pollTerm handler (limit + 1) st rest
  | limit + 1, st, .fragment flags payload :: rest =>
    match handler st flags payload with
    | (.abort, st) => (0, st, .fragment flags payload :: rest)
    | (.break, st) => (1, st, rest)
    | (_, st) =>
      let (count, st, rest) := pollTerm handler limit st rest
      (count + 1, st, rest)

/-- At the end of a term the subscriber position is in the next one. -/
def enterTerm : List Item → List Item
  | .termEnd :: rest => enterTerm rest
  | items => items

/-- `Subscription.ControlledPoll`. -/
def controlledPoll (handler : Handler σ) (fragmentLimit : Int) (st : σ) (items : List Item) : Nat × σ × List Item :=
  pollTerm handler fragmentLimit.toNat st (enterTerm items)

/-- `ControlledFragmentAssembler.OnFragment`. -/
def assembling (delegate : δ → List UInt8 → ControlledPollAction × δ) : Handler (List UInt8 × δ) :=
  fun (builder, d) flags payload =>
    if flags &&& unfragmented = unfragmented then
      let (action, d) := delegate d payload
      (action, builder, d)
    else if flags &&& beginFrag = beginFrag then (.continue, payload, d)
    else if builder.length = 0 then (.continue, builder, d)
    else if flags &&& endFrag = endFrag then
      let (action, d) := delegate d (builder ++ payload)
      (action, if action = .abort then builder else [], d)
    else (.continue, builder ++ payload, d)

end AeronGo.Archive
