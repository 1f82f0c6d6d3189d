import AeronGo.Archive.Control
import AeronGo.Driver.Destination
import AeronGo.Machine.Run

/-!
# Replay merge

`archive/replaymerge/replaymerge.go`: the state machine that replays a recording and joins the live stream.
What the archive, the image and the clock answer during one `DoWork` is its `Env`; at most one request is
made in it, so one correlation id is enough. The image is known as being there or not, and by what it
answers. Of what `NewReplayMerge` makes of its URIs, the endpoint is kept.

`calls` are the destination calls made and whether their command was written, `requests` the requests that
the archive's publication took, and `uses` the responses whose relevant id was taken, each with the
correlation id that was awaited then. They are history that no step reads.
-/

namespace AeronGo.Archive

open Machine Atomic Driver

/-- `aeron.NullValue`. -/
def nullValue : Int := -1

def recordingPositionNull : Int := -1

/-- `int64(2<<31 - 1)`. -/
def recordingLengthMax : Int := 4294967295

def liveAddMaxWindow : Int := 32 * 1024 * 1024

def replayRemoveThreshold : Int := 0

inductive MergeState where
  | resolveReplayPort
  | getRecordingPosition
  | replay
  | catchup
  | attemptLiveJoin
  | merged
  | failed
  | closed
deriving DecidableEq, Repr

def MergeState.string : MergeState → String
  | .resolveReplayPort => "ResolveReplayPort"
  | .getRecordingPosition => "GetRecordingPosition"
  | .replay => "Replay"
  | .catchup => "Catchup"
  | .attemptLiveJoin => "AttemptLiveJoin"
  | .merged => "Merged"
  | .failed => "Failed"
  | .closed => "Closed"

structure MergeOptions where
  /-- The archive's control session. -/
  sessionId : Int
  recordingId : Int
  startPosition : Int
  mergeProgressTimeoutMs : Int
  /-- The subscription. -/
  registrationID : Int
  streamID : Int
  replayDestination : String
  liveDestination : String
  /-- The endpoint of the replay destination. -/
  replayEndpoint : List Char

/-- The destination calls of a merge. -/
inductive Purpose where
  | addReplay
  | addLive
  | removeReplay
deriving DecidableEq, Repr

/-- A call that adds or removes a destination, as history. -/
structure DestinationCall where
  purpose : Purpose
  written : Bool
deriving DecidableEq, Repr

inductive Request where
  | recordingPosition (correlationId recordingId : Int)
  | stopPosition (correlationId recordingId : Int)
  | replay (correlationId recordingId position length : Int) (endpoint : List Char) (streamID : Int)
  | stopReplay (correlationId replaySessionId : Int)
deriving DecidableEq, Repr

def Request.correlationId : Request → Int
  | .recordingPosition correlationId _ => correlationId
  | .stopPosition correlationId _ => correlationId
  | .replay correlationId _ _ _ _ _ => correlationId
  | .stopReplay correlationId _ => correlationId

/-- A response that was acted on, and the correlation id that was awaited. -/
structure Use where
  response : ControlResponse
  awaited : Int
deriving DecidableEq, Repr

structure ReplayMerge where
  replaySessionId : Int
  activeCorrelationId : Int
  nextTargetPosition : Int
  positionOfLastProgress : Int
  timeOfLastProgressMs : Int
  isLiveAdded : Bool
  isReplayActive : Bool
  state : MergeState
  hasImage : Bool
  /-- The endpoint of the replay channel. -/
  endpoint : List Char
  control : Control
  isAeronClosed : Bool
  ring : List Command
  calls : List DestinationCall
  requests : List Request
  uses : List Use
deriving DecidableEq, Repr

/-- What the image answers. A position is a count of bytes. -/
structure ImageView where
  position : Int
  isClosed : Bool
  termBufferLength : Int
  activeTransportCount : Int
  position_range : 0 ≤ position ∧ position < 9223372036854775808

/-- What the world answers in one call. -/
structure Env where
  nowMs : Int
  arrived : List ControlFragment
  correlationId : Int
  /-- The archive's publication takes a request. -/
  takesRequest : Bool
  isArchiveConnected : Bool
  /-- Empty if the channel is not resolved. -/
  resolvedEndpoint : List Char
  isConnected : Bool
  /-- `ImageBySessionID` finds an image. -/
  hasImage : Int → Bool
  image : ImageView
  link : Link

/-- What a step of the merge returns. -/
structure Worked where
  workCount : Int
  err : Option String
  merge : ReplayMerge
deriving DecidableEq, Repr

namespace ReplayMerge

variable (o : MergeOptions) (env : Env) (rm : ReplayMerge)

/-- `setState`. -/
def setState (newState : MergeState) : ReplayMerge :=
  { rm with state := newState, activeCorrelationId := nullValue }

/-! ## Requests and destinations -/

/-- A request is made; if it is taken its response is awaited. -/
def await (request : Int → Request) : Option ReplayMerge :=
  if env.takesRequest then
    some { rm with activeCorrelationId := env.correlationId, requests := rm.requests ++ [request env.correlationId] }
  else none

def recordingPositionRequest (correlationId : Int) : Request := .recordingPosition correlationId o.recordingId

def stopPositionRequest (correlationId : Int) : Request := .stopPosition correlationId o.recordingId

def replayRequest (correlationId : Int) : Request :=
  .replay correlationId o.recordingId o.startPosition recordingLengthMax rm.endpoint o.streamID

/-- A destination call. Its error is dropped. -/
def call (purpose : Purpose) (called : Called) : ReplayMerge :=
  { rm with ring := called.2, calls := rm.calls ++ [⟨purpose, decide (called.2 ≠ rm.ring)⟩] }

def addLiveDestination : ReplayMerge :=
  rm.call .addLive (Subscription.addDestination env.link rm.ring o.registrationID o.liveDestination)

def removeReplayDestination : ReplayMerge :=
  rm.call .removeReplay (Subscription.removeDestination env.link rm.ring o.registrationID o.replayDestination)

/-- `stopReplay`. -/
def stopReplay (rm : ReplayMerge) : ReplayMerge :=
  if env.takesRequest then
    { rm with
      isReplayActive := false
      requests := rm.requests ++ [.stopReplay env.correlationId rm.replaySessionId] }
  else rm

/-! ## Responses -/

/-- `pollForResponse`: whether the response was polled, and the error. -/
def pollForResponse : Except Stop (Bool × Option String × ReplayMerge) :=
  let correlationId := rm.activeCorrelationId
  let (count, control) := rm.control.poll
  let rm := { rm with control := control }
  if 0 < count ∧ control.results.isPollComplete then
    match control.results.controlResponse with
    | none => .error .panic
    | some response =>
      match decide (response.controlSessionId = o.sessionId), control.results.errorResponse with
      | true, some err => .ok (false, some ("archive response for correlationId=" ++ toString correlationId ++
          ", error=" ++ err), rm)
      | _, _ => .ok (decide (control.results.correlationId = correlationId), none, rm)
  else .ok (false, none, rm)

/-- `polledRelevantId`, which is taken for what was awaited. -/
def polledRelevantId : Except Stop (Int × ReplayMerge) :=
  match rm.control.results.controlResponse with
  | none => .error .panic
  | some response => .ok (response.relevantId, { rm with uses := rm.uses ++ [⟨response, rm.activeCorrelationId⟩] })

/-! ## The states -/

/-- The part of an endpoint from its last colon on. -/
def lastColon : List Char → Option (List Char)
  | [] => none
  | c :: rest =>
    match lastColon rest with
    | some tail => some tail
    | none => if c = ':' then some (c :: rest) else none

def resolveReplayPort : Except Stop Worked :=
  if env.resolvedEndpoint = [] then .ok ⟨0, none, rm⟩
  else
    match lastColon env.resolvedEndpoint with
    | none => .error .panic
    | some port =>
      .ok ⟨1, none, { rm with
        endpoint := o.replayEndpoint.take (o.replayEndpoint.length - 2) ++ port
        timeOfLastProgressMs := env.nowMs }.setState .getRecordingPosition⟩

/-- The response to the position request is there. -/
def onRecordingPosition : Except Stop Worked := do
  let (position, rm) ← rm.polledRelevantId
  let rm := { rm with nextTargetPosition := position, activeCorrelationId := nullValue }
  if recordingPositionNull = position then
    match rm.await env (stopPositionRequest o) with
    | some rm => return ⟨2, none, { rm with timeOfLastProgressMs := env.nowMs }⟩
    | none => return ⟨1, none, rm⟩
  else return ⟨1, none, { rm with timeOfLastProgressMs := env.nowMs }.setState .replay⟩

def getRecordingPosition : Except Stop Worked :=
  if rm.activeCorrelationId = nullValue then
    match rm.await env (recordingPositionRequest o) with
    | some rm => .ok ⟨1, none, { rm with timeOfLastProgressMs := env.nowMs }⟩
    | none => .ok ⟨0, none, rm⟩
  else do
    let (success, err, rm) ← rm.pollForResponse o
    if err.isSome then return ⟨0, err, rm⟩
    else if success then rm.onRecordingPosition o env
    else return ⟨1, none, rm⟩

/-- The replay has started. -/
def onReplayStarted : Except Stop Worked := do
  let rm := { rm with isReplayActive := true }
  let (replaySessionId, rm) ← rm.polledRelevantId
  return ⟨1, none, { rm with
    replaySessionId := replaySessionId
    timeOfLastProgressMs := env.nowMs }.setState .catchup⟩

def replay : Except Stop Worked :=
  if rm.activeCorrelationId = nullValue then
    match rm.await env (replayRequest o rm) with
    | some rm => .ok ⟨1, none, { rm with timeOfLastProgressMs := env.nowMs }⟩
    | none => .ok ⟨0, none, rm⟩
  else do
    let (success, err, rm) ← rm.pollForResponse o
    if err.isSome then return ⟨0, err, rm⟩
    else if success then rm.onReplayStarted env
    else return ⟨0, none, rm⟩

/-- The image of the replay is looked up, once the subscription is connected. -/
def findImage : ReplayMerge :=
  if rm.hasImage = false ∧ env.isConnected then
    let found := env.hasImage (i32 rm.replaySessionId)
    { rm with
      timeOfLastProgressMs := env.nowMs
      hasImage := found
      positionOfLastProgress := if found then env.image.position else nullValue }
  else rm

def catchup : Worked :=
  let rm := rm.findImage env
  if rm.hasImage then
    let position := env.image.position
    if rm.nextTargetPosition ≤ position then
      ⟨1, none, { rm with
        timeOfLastProgressMs := env.nowMs
        positionOfLastProgress := position }.setState .attemptLiveJoin⟩
    else if rm.positionOfLastProgress < position then
      ⟨0, none, { rm with timeOfLastProgressMs := env.nowMs, positionOfLastProgress := position }⟩
    else if env.image.isClosed then ⟨0, some "ReplayMerge Image closed unexpectedly.", rm⟩
    else ⟨0, none, rm⟩
  else ⟨0, none, rm⟩

def shouldAddLiveDestination : Bool :=
  !rm.isLiveAdded &&
    i64 (rm.nextTargetPosition - env.image.position) ≤ min (env.image.termBufferLength / 4) liveAddMaxWindow

def shouldStopAndRemoveReplay : Bool :=
  rm.isLiveAdded && i64 (rm.nextTargetPosition - env.image.position) ≤ replayRemoveThreshold &&
    2 ≤ env.image.activeTransportCount

/-- The recorded position is known: add the live destination, or remove the replay, or catch up. -/
def join : ReplayMerge :=
  if rm.hasImage then
    if rm.shouldAddLiveDestination env then
      { rm.addLiveDestination o env with
        timeOfLastProgressMs := env.nowMs
        positionOfLastProgress := env.image.position
        isLiveAdded := true }.setState .catchup
    else if rm.shouldStopAndRemoveReplay env then
      { (rm.removeReplayDestination o env).stopReplay env with
        timeOfLastProgressMs := env.nowMs
        positionOfLastProgress := env.image.position }.setState .merged
    else rm.setState .catchup
  else rm.setState .catchup

/-- The response to the position request is there. -/
def onLivePosition : Except Stop Worked := do
  let (position, rm) ← rm.polledRelevantId
  let rm := { rm with nextTargetPosition := position, activeCorrelationId := nullValue }
  if recordingPositionNull = position then
    match rm.await env (recordingPositionRequest o) with
    | some rm => return ⟨1, none, rm⟩
    | none => return ⟨1, none, rm⟩
  else return ⟨1, none, rm.join o env⟩

/-- `attemptLiveJoin`: ask for the position, then add the live or drop the replay destination. -/
def attemptLiveJoin : Except Stop Worked :=
  if rm.activeCorrelationId = nullValue then
    match rm.await env (recordingPositionRequest o) with
    | some rm => .ok ⟨1, none, rm⟩
    | none => .ok ⟨0, none, rm⟩
  else do
    let (success, err, rm) ← rm.pollForResponse o
    if err.isSome then return ⟨0, err, rm⟩
    else if success then rm.onLivePosition o env
    else return ⟨0, none, rm⟩

/-! ## DoWork and Close -/

/-- `checkProgress`. -/
def checkProgress : Option String :=
  if i64 (rm.timeOfLastProgressMs + o.mergeProgressTimeoutMs) < env.nowMs then
    some ("ReplayMerge no progress: state=" ++ rm.state.string)
  else none

/-- What `DoWork` does with the outcome of a state. -/
def settle (w : Worked) : Worked :=
  match w.err with
  | some _ => { w with merge := w.merge.setState .failed }
  | none =>
    match w.merge.checkProgress o env with
    | some err => ⟨w.workCount, some err, w.merge.setState .failed⟩
    | none => w

/-- The work of a state. -/
def work : Except Stop Worked :=
  match rm.state with
  | .resolveReplayPort => rm.resolveReplayPort o env
  | .getRecordingPosition => rm.getRecordingPosition o env
  | .replay => rm.replay o env
  | .catchup => .ok (rm.catchup env)
  | .attemptLiveJoin => rm.attemptLiveJoin o env
  | .merged | .failed | .closed => .ok ⟨0, none, rm⟩

/-- The states that `DoWork` does nothing in. -/
def isDone : Bool := rm.state = .merged || rm.state = .failed || rm.state = .closed

/-- `DoWork`. -/
def doWork : Except Stop Worked :=
  if rm.isDone then .ok ⟨0, none, rm⟩
  else do
    let w ← { rm with control := rm.control.receive env.arrived }.work o env
    return settle o env w

/-- `Close`. -/
def close : ReplayMerge :=
  if rm.state = .closed then rm
  else if rm.isAeronClosed then rm.setState .closed
  else
    let rm' := if rm.state = .merged then rm else rm.removeReplayDestination o env
    let rm' := if rm'.isReplayActive ∧ env.isArchiveConnected then rm'.stopReplay env else rm'
    rm'.setState .closed

/-- `NewReplayMerge`, once its arguments are found to be in order. -/
def new (o : MergeOptions) (control : Control) (nowMs : Int) (link : Link) : ReplayMerge :=
  let rm : ReplayMerge := {
    replaySessionId := nullValue
    activeCorrelationId := nullValue
    nextTargetPosition := nullValue
    positionOfLastProgress := nullValue
    timeOfLastProgressMs := nowMs
    isLiveAdded := false
    isReplayActive := false
    state := if [':', '0'].isSuffixOf o.replayEndpoint then .resolveReplayPort else .getRecordingPosition
    hasImage := false
    endpoint := o.replayEndpoint
    control := control
    isAeronClosed := false
    ring := []
    calls := []
    requests := []
    uses := [] }
  rm.call .addReplay (Subscription.addDestination link rm.ring o.registrationID o.replayDestination)

/-! ## Runs -/

inductive Action where
  | doWork (env : Env)
  | close (env : Env)
  | closeAeron

def step : Action → Option ReplayMerge
  | .doWork env => (rm.doWork o env).toOption.map (·.merge)
  | .close env => some (rm.close o env)
  | .closeAeron => some { rm with isAeronClosed := true }

/-- A merge that was just made. The control has no error left by another use of it. -/
def Started : Prop :=
  ∃ control nowMs link, control.results.errorResponse = none ∧ rm = new o control nowMs link

def system : System ReplayMerge Action := .ofStep (Started o) (step o)

end ReplayMerge

end AeronGo.Archive
