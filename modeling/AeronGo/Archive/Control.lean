import AeronGo.Image

/-!
# Control responses

The polling side of `archive/control.go` that `Poll` and `onFragment` make up, with the results that they
leave for the caller. A fragment of the control stream either completes a message that decodes as a
control response, or it is one of all others: part of a longer message, undecodable, or of another
template; those change no result.

`pending` are the fragments that wait on the subscription. After a `Break` of one image the other images
are still polled, where the handler aborts at once, so a poll takes fragments up to the first response
and no further.
-/

namespace AeronGo.Archive

open Image (ControlledPollAction)

def controlFragmentLimit : Nat := 10

inductive ControlResponseCode where
  | OK
  | ERROR
  | RECORDING_UNKNOWN
  | SUBSCRIPTION_UNKNOWN
  | other (value : Int)
deriving DecidableEq, Repr

structure ControlResponse where
  controlSessionId : Int
  correlationId : Int
  relevantId : Int
  code : ControlResponseCode
  relevantId_range : Machine.I64 relevantId
deriving DecidableEq, Repr

inductive ControlFragment where
  | controlResponse (response : ControlResponse)
  | other
deriving DecidableEq, Repr

structure ControlResults where
  correlationId : Int
  controlResponse : Option ControlResponse
  isPollComplete : Bool
  /-- Set by `PollForErrorResponse` only. -/
  errorResponse : Option String
deriving DecidableEq, Repr

/-- The zero value. -/
def ControlResults.empty : ControlResults := ⟨0, none, false, none⟩

structure Control where
  results : ControlResults
  pending : List ControlFragment
deriving DecidableEq, Repr

namespace Control

def onFragment (results : ControlResults) : ControlFragment → ControlledPollAction × ControlResults
  | fragment =>
    if results.isPollComplete then (.abort, results)
    else
      match fragment with
      | .controlResponse response =>
        (.break, { results with
          controlResponse := some response
          isPollComplete := true
          correlationId := response.correlationId })
      | .other => (.continue, results)

/-- `ControlledPoll` of the control subscription: the number of fragments read, the results, and what is
left. -/
def controlledPoll : Nat → ControlResults → List ControlFragment → Nat × ControlResults × List ControlFragment
  | 0, results, pending => (0, results, pending)
  | _ + 1, results, [] => (0, results, [])
  | limit + 1, results, fragment :: rest =>
    match onFragment results fragment with
    | (.abort, results) => (0, results, fragment :: rest)
    | (.break, results) => (1, results, rest)
    | (_, results) =>
      let (count, results, rest) := controlledPoll limit results rest
      (count + 1, results, rest)

/-- `Control.Poll`. -/
def poll (control : Control) : Nat × Control :=
  let results := if control.results.isPollComplete then ControlResults.empty else control.results
  let (count, results, pending) := controlledPoll controlFragmentLimit results control.pending
  (count, ⟨results, pending⟩)

/-- More fragments arrive. -/
def receive (control : Control) (fragments : List ControlFragment) : Control :=
  { control with pending := control.pending ++ fragments }

end Control

end AeronGo.Archive
