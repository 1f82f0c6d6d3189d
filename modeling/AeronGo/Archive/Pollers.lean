import AeronGo.Archive.Codecs
import AeronGo.Archive.Queue

/-!
# The pollers of the control stream

`archive/control.go`: the handlers that take the archive's messages from the response image, and the
pollers that run them, with the connect loop of `NewArchive` and the listings of `archive.go`. A loop is
given its turns: what arrives before a poll, and what the checks behind it see. It is `unfinished` where
it would go on.

`correlations` tells the correlation ids that are registered with this control.
-/

namespace AeronGo.Archive.Pollers

open Atomic LogBuffer Codecs
open Image (ControlledPollAction)

/-! ## State -/

inductive ControlState where
  | error
  | new
  | connectRequestSent
  | challenged
  | connectRequestOk
  | connected
  | timedOut
deriving DecidableEq, Repr

structure ControlResults where
  correlationId : Int := 0
  controlResponse : Option Codecs.ControlResponse := none
  recordingDescriptors : List RecordingDescriptor := []
  recordingSubscriptionDescriptors : List RecordingSubscriptionDescriptor := []
  isPollComplete : Bool := false
  fragmentsReceived : Nat := 0
deriving DecidableEq, Repr

/-- The control, with the session of its archive, the calls of the archive's listeners and the challenge
responses sent. -/
structure Control where
  state : ControlState
  err : Option Text
  results : ControlResults
  /-- The builder of `fragmentAssembler`. -/
  builder : List UInt8
  sessionID : Int
  signals : List RecordingSignalEvent
  errors : List Text
  challengeResponses : List (Int × List UInt8)
deriving DecidableEq, Repr

/-- The options of an archive, and which of its listeners are set. -/
structure Options where
  rangeChecking : Bool
  authChallenge : Option (List UInt8)
  authResponse : List UInt8
  errorListener : Bool
  recordingSignalListener : Bool
deriving DecidableEq, Repr

namespace Control

variable (options : Options)

/-- A call of `ErrorListener`, if it is set. -/
def report (error : Text) (control : Control) : Control :=
  if options.errorListener then { control with errors := control.errors ++ [error] } else control

/-- An error that wraps the one of a decoder. -/
def reportDecode (message : String) (error : Option Text) (control : Control) : Control :=
  match error with
  | some cause => control.report options (text message ++ cause)
  | none => control

/-- A call of `RecordingSignalListener`, if it is set. -/
def signal (event : RecordingSignalEvent) (control : Control) : Control :=
  if options.recordingSignalListener then { control with signals := control.signals ++ [event] } else control

/-- The response that a poll waited for. -/
def complete (response : Codecs.ControlResponse) (control : Control) : Control :=
  { control with results := { control.results with controlResponse := some response, isPollComplete := true } }

/-- Clear old results and the completion flag. -/
def clear (control : Control) : Control :=
  { control with results := { control.results with controlResponse := none, isPollComplete := false } }

end Control

/-- The bytes as `%v` prints them. -/
def printed (bytes : List UInt8) : String := "[" ++ " ".intercalate (bytes.map toString) ++ "]"

def uncorrelated (correlationID : Int) : Text :=
  text ("failed to locate control via correlationID " ++ toString correlationID)

/-! ## Handlers -/

section Handlers

variable (options : Options) (correlations : Int → Bool)

/-- `controlFragmentHandler`. -/
def controlFragmentHandler (correlationID : Int) (control : Control) (bytes : List UInt8) :
    ControlledPollAction × Control :=
  if control.results.isPollComplete then (.abort, control)
  else
    let hdr := SbeGoMessageHeader.decode bytes
    if hdr.error.isSome then
      (.continue, control.reportDecode options
        "controlFragmentHandler() failed to decode control message header: " hdr.error)
    else if ¬correlations correlationID then (.continue, control.report options (uncorrelated correlationID))
    else if hdr.value.templateId = ControlResponse.sbeTemplateId then
      let response := ControlResponse.decode hdr.rest hdr.value.version hdr.value.blockLength options.rangeChecking
      if response.error.isSome then
        (.continue, control.reportDecode options "controlFragmentHandler failed to decode control response:"
          response.error)
      else if response.value.controlSessionId = control.sessionID ∧ response.value.correlationId = correlationID then
        (.break, control.complete response.value)
      else (.continue, control)
    else if hdr.value.templateId = RecordingSignalEvent.sbeTemplateId then
      let event := RecordingSignalEvent.decode hdr.rest hdr.value.version hdr.value.blockLength options.rangeChecking
      -- the listener is called with what was decoded
      (.continue, (control.reportDecode options "ControlFragmentHandler failed to decode recording signal: "
        event.error).signal options event.value)
    else (.continue, control)

/-- `ConnectionControlFragmentHandler`. -/
def connectionControlFragmentHandler (correlationID : Int) (control : Control) (bytes : List UInt8) : Control :=
  let hdr := SbeGoMessageHeader.decode bytes
  let control := control.reportDecode options
    "ConnectionControlFragmentHandler() failed to decode control message header: " hdr.error
  if hdr.value.templateId = ControlResponse.sbeTemplateId then
    let response := ControlResponse.decode hdr.rest hdr.value.version hdr.value.blockLength options.rangeChecking
    if response.error.isSome then
      control.reportDecode options "ConnectionControlFragmentHandler failed to decode control response: " response.error
    else if ¬correlations response.value.correlationId then control
    else if response.value.correlationId = correlationID then
      if response.value.code ≠ .OK then
        let failure := text "Control Response failure: " ++ response.value.errorMessage
        { control with state := .error, err := some failure }.report options failure
      else
        let unexpected := text "Control Response not expecting response"
        let control :=
          if control.state ≠ .connectRequestSent then
            { control with state := .error, err := some unexpected }.report options unexpected
          else control
        { control with state := .connected, err := none, sessionID := response.value.controlSessionId }
    else control
  else if hdr.value.templateId = Challenge.sbeTemplateId then
    let challenge := Challenge.decode hdr.rest hdr.value.version hdr.value.blockLength options.rangeChecking
    let control := control.reportDecode options "ControlFragmentHandler failed to decode challenge: " challenge.error
    if ¬correlations challenge.value.correlationId then control
    else if challenge.value.correlationId = correlationID then
      match options.authChallenge with
      | some expected =>
        if expected ≠ challenge.value.encodedChallenge then
          { control with err := some (text ("ChallengeResponse Unexpected: expected:" ++ printed expected ++
            " received:" ++ printed challenge.value.encodedChallenge)) }
        else respond challenge.value control
      | none => respond challenge.value control
    else control
  else control
where
  /-- The challenge response goes out in the new session. -/
  respond (challenge : Challenge) (control : Control) : Control :=
    { control with
      state := .challenged
      err := none
      sessionID := challenge.controlSessionId
      challengeResponses := control.challengeResponses ++ [(challenge.correlationId, options.authResponse)] }

/-- `DescriptorFragmentHandler`. -/
def descriptorFragmentHandler (correlationID : Int) (control : Control) (bytes : List UInt8) : Control :=
  let hdr := SbeGoMessageHeader.decode bytes
  if hdr.error.isSome then
    control.reportDecode options "DescriptorFragmentHandler() failed to decode control message header: " hdr.error
  else if ¬correlations correlationID then control.report options (uncorrelated correlationID)
  else if hdr.value.templateId = RecordingDescriptor.sbeTemplateId then
    let rd := RecordingDescriptor.decode hdr.rest hdr.value.version hdr.value.blockLength options.rangeChecking
    if rd.error.isSome then control.reportDecode options "failed to decode RecordingDescriptor: " rd.error
    else if rd.value.controlSessionId = control.sessionID ∧ rd.value.correlationId = correlationID then
      { control with results := { control.results with
        recordingDescriptors := control.results.recordingDescriptors ++ [rd.value]
        fragmentsReceived := control.results.fragmentsReceived + 1 } }
    else control
  else if hdr.value.templateId = RecordingSubscriptionDescriptor.sbeTemplateId then
    let rsd := RecordingSubscriptionDescriptor.decode hdr.rest hdr.value.version hdr.value.blockLength
      options.rangeChecking
    if rsd.error.isSome then control.reportDecode options "failed to decode RecordingSubscriptioDescriptor: " rsd.error
    else if rsd.value.controlSessionId = control.sessionID ∧ rsd.value.correlationId = correlationID then
      { control with results := { control.results with
        recordingSubscriptionDescriptors := control.results.recordingSubscriptionDescriptors ++ [rsd.value]
        fragmentsReceived := control.results.fragmentsReceived + 1 } }
    else control
  else if hdr.value.templateId = ControlResponse.sbeTemplateId then
    let response := ControlResponse.decode hdr.rest hdr.value.version hdr.value.blockLength options.rangeChecking
    if response.error.isSome then control.reportDecode options "failed to decode control response: " response.error
    else if response.value.controlSessionId = control.sessionID then
      if response.value.correlationId = correlationID ∧ response.value.code = .RECORDING_UNKNOWN then
        control.complete response.value
      else if response.value.code = .ERROR then control.complete response.value
      else control
    else control
  else if hdr.value.templateId = RecordingSignalEvent.sbeTemplateId then
    let event := RecordingSignalEvent.decode hdr.rest hdr.value.version hdr.value.blockLength options.rangeChecking
    if event.error.isSome then control.reportDecode options "failed to decode recording signal: " event.error
    else control.signal options event.value
  else control

/-- `onFragment`, the delegate of `Poll`. It dispatches no signals. -/
def onFragment (control : Control) (bytes : List UInt8) : ControlledPollAction × Control :=
  if control.results.isPollComplete then (.abort, control)
  else
    let hdr := SbeGoMessageHeader.decode bytes
    if hdr.error.isSome then
      (.continue, control.reportDecode options
        "DescriptorFragmentHandler() failed to decode control message header: " hdr.error)
    else if hdr.value.templateId = ControlResponse.sbeTemplateId then
      let response := ControlResponse.decode hdr.rest hdr.value.version hdr.value.blockLength options.rangeChecking
      if response.error.isSome then
        (.continue, control.reportDecode options "failed to decode control response: " response.error)
      else
        let control := control.complete response.value
        (.break, { control with results := { control.results with correlationId := response.value.correlationId } })
    else if hdr.value.templateId = RecordingSignalEvent.sbeTemplateId then
      let event := RecordingSignalEvent.decode hdr.rest hdr.value.version hdr.value.blockLength options.rangeChecking
      (.continue, control.reportDecode options "failed to decode recording signal: " event.error)
    else (.continue, control)

end Handlers

/-! ## Polls -/

/-- A handler of whole messages that has no say, as one of fragments: without an assembler every fragment is a
message, and the poll goes on. -/
def always (handler : Control → List UInt8 → Control) : Handler Control :=
  fun control _ payload => (.continue, handler control payload)

/-- What happens around a poll: the items that arrive before it, and what the checks behind it see. -/
structure Turn where
  arrived : List Item := []
  isClosed : Bool := false
  timedOut : Bool := false
deriving DecidableEq, Repr

/-- What a poller returns: its answer, the control, what is left on the image, and the turns taken. -/
structure Returned (α : Type) where
  answer : α
  control : Control
  items : List Item
  turns : Nat
deriving DecidableEq, Repr

section Pollers

variable (options : Options) (correlations : Int → Bool) (turns : Nat → Turn)

/-- `poll`. -/
def poll (handler : Handler Control) (fragmentLimit : Int) (control : Control) (items : List Item) :
    Nat × Control × List Item :=
  controlledPoll handler fragmentLimit control.clear items

/-- `poll` with an assembler. -/
def pollAssembling (delegate : Control → List UInt8 → ControlledPollAction × Control) (fragmentLimit : Int)
    (builder : List UInt8) (control : Control) (items : List Item) : Nat × (List UInt8 × Control) × List Item :=
  controlledPoll (assembling delegate) fragmentLimit (builder, control.clear) items

def notConnected : Text := text "response channel from archive is not connected"

/-- The answer of a response. -/
def answerOf (response : Codecs.ControlResponse) : Int × Option Text :=
  (response.relevantId,
    if response.code ≠ .OK then some (text "Control Response failure: " ++ response.errorMessage) else none)

/-- The loop of `PollForResponse`. -/
def responseLoop (correlationID : Int) : Nat → Nat → List UInt8 → Control → List Item →
    Except Stop (Returned (Int × Option Text))
  | 0, _, _, _, _ => .error .unfinished
  | fuel + 1, turn, builder, control, items =>
    let (_, (builder, control), items) := pollAssembling (controlFragmentHandler options correlations correlationID) 10
      builder control (items ++ (turns turn).arrived)
    if control.results.isPollComplete then
      match control.results.controlResponse with
      | none => .error .panic
      | some response => .ok ⟨answerOf response, control, items, turn + 1⟩
    else if (turns turn).isClosed then .ok ⟨(0, some notConnected), control, items, turn + 1⟩
    else if (turns turn).timedOut then
      .ok ⟨(0, some (text ("timeout waiting for correlationID " ++ toString correlationID))), control, items, turn + 1⟩
    else responseLoop correlationID fuel (turn + 1) builder control items

/-- `PollForResponse`, with an assembler of its own. -/
def pollForResponse (correlationID : Int) (fuel : Nat) (control : Control) (items : List Item) :
    Except Stop (Returned (Int × Option Text)) :=
  responseLoop options correlations turns correlationID fuel 0 [] control items

/-- The loop of `PollForDescriptors`. -/
def descriptorsLoop (correlationID fragmentsWanted : Int) : Nat → Nat → Int → Control → List Item →
    Except Stop (Returned (Option Text))
  | 0, _, _, _, _ => .error .unfinished
  | fuel + 1, turn, descriptorCount, control, items =>
    if control.results.isPollComplete then .ok ⟨none, control, items, turn⟩
    else
      let (_, control, items) := poll (always (descriptorFragmentHandler options correlations correlationID))
        (fragmentsWanted - descriptorCount) control (items ++ (turns turn).arrived)
      let descriptorCount : Int :=
        control.results.recordingDescriptors.length + control.results.recordingSubscriptionDescriptors.length
      if control.results.isPollComplete ∨ fragmentsWanted ≤ descriptorCount then .ok ⟨none, control, items, turn + 1⟩
      else if (turns turn).isClosed then .ok ⟨some notConnected, control, items, turn + 1⟩
      else if (turns turn).timedOut then
        .ok ⟨some (text ("PollNextDescriptor timeout waiting for correlationID " ++ toString correlationID)), control,
          items, turn + 1⟩
      else descriptorsLoop correlationID fragmentsWanted fuel (turn + 1) descriptorCount control items

/-- `PollForDescriptors`. -/
def pollForDescriptors (correlationID fragmentsWanted : Int) (fuel : Nat) (control : Control) (items : List Item) :
    Except Stop (Returned (Option Text)) :=
  let control := { control with results := { control.results with
    controlResponse := none
    isPollComplete := false
    recordingDescriptors := []
    recordingSubscriptionDescriptors := []
    fragmentsReceived := 0 } }
  descriptorsLoop options correlations turns correlationID fragmentsWanted fuel 0 0 control items

/-- The connect loop of `NewArchive`, and the error that it returns. -/
def connectLoop (correlationID : Int) : Nat → Nat → Control → List Item → Except Stop (Returned (Option Text))
  | 0, _, _, _ => .error .unfinished
  | fuel + 1, turn, control, items =>
    if control.state ≠ .connected ∧ control.err = none then
      let (_, control, items) := poll (always (connectionControlFragmentHandler options correlations correlationID)) 1
        control (items ++ (turns turn).arrived)
      if (turns turn).timedOut then
        let error := text "operation timed out"
        .ok ⟨some error, { control with state := .timedOut, err := some error }, items, turn + 1⟩
      else connectLoop correlationID fuel (turn + 1) control items
    else .ok ⟨control.err, control, items, turn⟩

/-- `Poll`, with the control's own assembler. -/
def pollControl (control : Control) (items : List Item) : Nat × Control × List Item :=
  let control := if control.results.isPollComplete then { control with results := {} } else control
  let (count, (builder, control), items) := controlledPoll (assembling (onFragment options)) controlFragmentLimit
    (control.builder, control) items
  (count, { control with builder }, items)

/-! ## Listings -/

/-- What is made of the descriptors: an `ERROR` response fails the request. -/
def listing {α : Type} (descriptors : ControlResults → List α) :
    Except Stop (Returned (Option Text)) → Except Stop (Returned (Except Text (List α)))
  | .error stop => .error stop
  | .ok ⟨some error, control, items, turns⟩ => .ok ⟨.error error, control, items, turns⟩
  | .ok ⟨none, control, items, turns⟩ =>
    match control.results.controlResponse with
    | some response =>
      if response.code = .ERROR then
        .ok ⟨.error (text ("response for correlationID " ++ toString response.correlationId ++ " (relevantId " ++
          toString response.relevantId ++ ") failed ") ++ response.errorMessage), control, items, turns⟩
      else .ok ⟨.ok (descriptors control.results), control, items, turns⟩
    | none => .ok ⟨.ok (descriptors control.results), control, items, turns⟩

/-- `ListRecordings` once its request is out. -/
def listRecordings (correlationID recordCount : Int) (fuel : Nat) (control : Control) (items : List Item) :
    Except Stop (Returned (Except Text (List RecordingDescriptor))) :=
  listing ControlResults.recordingDescriptors
    (pollForDescriptors options correlations turns correlationID recordCount fuel control items)

/-- `ListRecordingsForUri` once its request is out. -/
def listRecordingsForUri (correlationID recordCount : Int) (fuel : Nat) (control : Control) (items : List Item) :
    Except Stop (Returned (Except Text (List RecordingDescriptor))) :=
  listing ControlResults.recordingDescriptors
    (pollForDescriptors options correlations turns correlationID recordCount fuel control items)

/-- `ListRecordingSubscriptions` once its request is out. -/
def listRecordingSubscriptions (correlationID subscriptionCount : Int) (fuel : Nat) (control : Control)
    (items : List Item) : Except Stop (Returned (Except Text (List RecordingSubscriptionDescriptor))) :=
  listing ControlResults.recordingSubscriptionDescriptors
    (pollForDescriptors options correlations turns correlationID subscriptionCount fuel control items)

end Pollers

end AeronGo.Archive.Pollers
