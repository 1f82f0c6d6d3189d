import AeronGo.Atomic.Buffer
import AeronGo.Cluster.Codecs

/-!
# The clustered service agent

`cluster/clustered_service_agent.go` with its log adapter, service adapter and client sessions: what the
agent does with the messages of the log and of the consensus module, what it calls on the service and
which acks it sends.

An Aeron resource is a reference that is never reused: the number of the attempt that asked for it.
`publications` are the response publications that are open and `logSubscriptions` the open log
subscriptions. `events` is history: the calls made on the service and the acks sent, in order.

A message of a stream is what the generated codecs make of its bytes; one that is too short, of another
schema or template, or undecodable is `ignored`, and a field read past the end of the buffer stops the
process. What the world answers during one `DoWork` is its `Env`. A panic ends a run. Log output, the
mark file, the service's own calls on the agent and the clock ticks inside waits are left out; the time
of the next call is any.
-/

namespace AeronGo.Cluster.Service

open Machine Atomic Codecs

/-- `NullPosition` and `NullValue`. -/
def null : Int := -1

def clusterActionFlagsDefault : Int := 0

def clusterActionFlagsStandbySnapshot : Int := 1

inductive Role where
  | follower
  | candidate
  | leader
  | other (value : Int)
deriving DecidableEq, Repr

inductive ClusterAction where
  | SUSPEND
  | RESUME
  | SNAPSHOT
  | other (value : Int)
deriving DecidableEq, Repr

inductive ChangeType where
  | JOIN
  | QUIT
  | other (value : Int)
deriving DecidableEq, Repr

/-- `util.SemanticVersionMajor` of the version as an unsigned word. -/
def semanticVersionMajor (version : Int) : Int := version % 4294967296 / 65536 % 256

/-! ## State -/

/-- A client session, with the number of its response publication. -/
structure ContainerClientSession where
  id : Int
  responseStreamId : Int
  responseChannel : List UInt8
  encodedPrincipal : List UInt8
  /-- The response publication. -/
  response : Nat
deriving DecidableEq, Repr

/-- What a `JoinLog` message announces. -/
structure ActiveLogEvent where
  logPosition : Int
  maxLogPosition : Int
  memberId : Int
  logSessionId : Int
  logStreamId : Int
  isStartup : Bool
  isStandby : Bool
  role : Role
  logChannel : List UInt8
deriving DecidableEq, Repr

structure NewLeadershipTerm where
  leadershipTermId : Int
  logPosition : Int
  timestamp : Int
  termBaseLogPosition : Int
  leaderMemberId : Int
  logSessionId : Int
  timeUnit : ClusterTimeUnit
  appVersion : Int
deriving DecidableEq, Repr

/-- A call on the service, or an ack to the consensus module. -/
inductive Event where
  | onStart (hasImage : Bool)
  | onSessionOpen (sessionId timestamp : Int)
  | onSessionClose (sessionId timestamp closeReason : Int)
  | onSessionMessage (session : Option Int) (timestamp : Int) (payload : List UInt8)
  | onTimerEvent (correlationId timestamp : Int)
  | onTakeSnapshot
  | onRoleChange (role : Role)
  | onTerminate
  | onNewLeadershipTermEvent (term : NewLeadershipTerm)
  | serviceAck (logPosition timestamp ackId relevantId serviceId : Int)
deriving DecidableEq, Repr

structure Options where
  appVersion : Int
  serviceId : Int

structure Agent where
  cachedTimeMs : Int
  logPosition : Int
  clusterTime : Int
  timeUnit : ClusterTimeUnit
  memberId : Int
  nextAckId : Int
  terminationPosition : Int
  requestedAckPosition : Int
  standbySnapshotFlags : Int
  isServiceActive : Bool
  role : Role
  /-- The leadership term id that the session message header encodes. -/
  leadershipTermId : Int
  sessions : List ContainerClientSession
  activeLogEvent : Option ActiveLogEvent
  /-- The log adapter: its image, as the subscription it belongs to, its limit and its builder. -/
  image : Option Nat
  maxLogPosition : Int
  builder : Option (List UInt8)
  /-- The open response publications and the number of those asked for. -/
  publications : List Nat
  publicationAttempts : Nat
  /-- The open log subscriptions and the number of those asked for. -/
  logSubscriptions : List Nat
  subscriptionAttempts : Nat
  events : List Event
deriving DecidableEq, Repr

/-- `NewClusteredServiceAgent`, as far as the agent's own state goes. -/
def Agent.initial : Agent where
  cachedTimeMs := 0
  logPosition := null
  clusterTime := 0
  timeUnit := .MILLIS
  memberId := 0
  nextAckId := 0
  terminationPosition := null
  requestedAckPosition := null
  standbySnapshotFlags := clusterActionFlagsDefault
  isServiceActive := false
  role := .follower
  leadershipTermId := 0
  sessions := []
  activeLogEvent := none
  image := none
  maxLogPosition := 0
  builder := none
  publications := []
  publicationAttempts := 0
  logSubscriptions := []
  subscriptionAttempts := 0
  events := []

/-- A fragment of the log, with its frame's flags and end position. -/
structure LogFragment where
  flags : UInt8
  payload : List UInt8
  position : Int
deriving DecidableEq, Repr

/-- What one bounded poll of the log image hands out, and the image afterwards. -/
structure LogPoll where
  fragments : List LogFragment
  position : Int
  isEndOfStream : Bool
  isClosed : Bool

/-- A message of the service control stream. -/
inductive ServiceMessage where
  | joinLog (event : ActiveLogEvent)
  | serviceTerminationPosition (logPosition : Int)
  | requestServiceAck (logPosition : Int)
  | ignored
  | outOfBounds
deriving DecidableEq, Repr

/-- What the world answers while the agent works. -/
structure Env where
  nowMs : Int
  /-- The commit position counter is still allocated. -/
  isCounterAllocated : Bool
  /-- The fragments that the poll of the service subscription hands out. -/
  control : List ServiceMessage
  /-- `AddSubscription` for the log, and the position of the image that is awaited then. -/
  joinLog : Except String Int
  log : LogPoll
  /-- The error of each attempt to add a publication, if any. -/
  addPublication : Nat → Option String
  /-- The recording of a snapshot taken at a log position, or what failed. -/
  takeSnapshot : Int → Except String Int
  /-- Whether the consensus module's publication takes the ack with an id; if not, the proxy panics. -/
  takesAck : Int → Bool

/-- The bytes of a log message, decoded. -/
inductive LogMessage where
  | timerEvent (correlationId timestamp : Int)
  | sessionOpen (leadershipTermId clusterSessionId timestamp responseStreamId : Int)
      (responseChannel encodedPrincipal : List UInt8)
  | sessionClose (leadershipTermId clusterSessionId timestamp closeReason : Int)
  | clusterActionRequest (leadershipTermId logPosition timestamp : Int) (action : ClusterAction) (flags : Int)
  | newLeadershipTerm (term : NewLeadershipTerm)
  | membershipChange (logPosition timestamp : Int) (changeType : ChangeType) (memberId : Int)
  | sessionMessage (clusterSessionId timestamp : Int) (payload : List UInt8)
  | ignored
  | outOfBounds
deriving DecidableEq, Repr

namespace Agent

variable (o : Options) (env : Env) (decode : List UInt8 → LogMessage) (agent : Agent)

def emit (event : Event) : Agent := { agent with events := agent.events ++ [event] }

/-! ## Acks -/

/-- `proxy.serviceAckRequest` with the next ack id. -/
def serviceAckRequest (logPosition timestamp relevantId : Int) : Except Stop Agent :=
  let ackId := agent.nextAckId
  let agent := { agent with nextAckId := i64 (ackId + 1) }
  if env.takesAck ackId then .ok (agent.emit (.serviceAck logPosition timestamp ackId relevantId o.serviceId))
  else .error .panic

/-- `terminate`: the flag goes down before the service is told. -/
def terminate : Except Stop Agent := do
  let agent := { agent with isServiceActive := false }.emit .onTerminate
  let agent ← agent.serviceAckRequest o env agent.logPosition agent.clusterTime null
  return { agent with terminationPosition := null }

/-! ## Sessions -/

/-- `newContainerClientSession`: ask for the response publication. -/
def newContainerClientSession (addPublication : Nat → Option String) (id responseStreamId : Int)
    (responseChannel encodedPrincipal : List UInt8) : Except String ContainerClientSession × Agent :=
  let response := agent.publicationAttempts
  let agent := { agent with publicationAttempts := response + 1 }
  match addPublication response with
  | some err => (.error err, agent)
  | none => (.ok ⟨id, responseStreamId, responseChannel, encodedPrincipal, response⟩,
      { agent with publications := agent.publications ++ [response] })

/-- `agent.sessions[session.id] = session`. -/
def putSession (session : ContainerClientSession) : Agent :=
  { agent with sessions := agent.sessions.filter (·.id ≠ session.id) ++ [session] }

def addSessionFromSnapshot (session : ContainerClientSession) : Agent := agent.putSession session

def getClientSession (id : Int) : Option ContainerClientSession := agent.sessions.find? (·.id = id)

/-- `onSessionOpen`; an id that is in use is an error. -/
def onSessionOpen (agent : Agent) (leadershipTermId logPosition clusterSessionId timestamp responseStreamId : Int)
    (responseChannel encodedPrincipal : List UInt8) : Except String Agent :=
  let agent := { agent with logPosition := logPosition, clusterTime := timestamp }
  match agent.getClientSession clusterSessionId with
  | some _ => .error ("clashing open session - id=" ++ toString clusterSessionId ++ " leaderTermId=" ++
      toString leadershipTermId ++ " logPos=" ++ toString logPosition)
  | none =>
    match agent.newContainerClientSession env.addPublication clusterSessionId responseStreamId responseChannel
      encodedPrincipal with
    | (.error err, _) => .error err
    | (.ok session, agent) => .ok ((agent.putSession session).emit (.onSessionOpen session.id timestamp))

/-- `onSessionClose`: the session is forgotten and its publication is not closed. -/
def onSessionClose (agent : Agent) (logPosition clusterSessionId timestamp closeReason : Int) : Agent :=
  let agent := { agent with logPosition := logPosition, clusterTime := timestamp }
  match agent.getClientSession clusterSessionId with
  | some session =>
    { agent with sessions := agent.sessions.filter (·.id ≠ clusterSessionId) }.emit
      (.onSessionClose session.id timestamp closeReason)
  | none => agent

/-- `onSessionMessage`, with a nil session if the id is not known. -/
def onSessionMessage (agent : Agent) (logPosition clusterSessionId timestamp : Int) (payload : List UInt8) : Agent :=
  let agent := { agent with logPosition := logPosition, clusterTime := timestamp }
  agent.emit (.onSessionMessage ((agent.getClientSession clusterSessionId).map (·.id)) timestamp payload)

/-! ## Other messages of the log -/

def onTimerEvent (agent : Agent) (logPosition correlationId timestamp : Int) : Agent :=
  { agent with logPosition := logPosition, clusterTime := timestamp }.emit (.onTimerEvent correlationId timestamp)

def onNewLeadershipTermEvent (agent : Agent) (term : NewLeadershipTerm) : Except Stop Agent :=
  if semanticVersionMajor o.appVersion ≠ semanticVersionMajor term.appVersion then .error .panic
  else .ok ({ agent with
    leadershipTermId := term.leadershipTermId
    logPosition := term.logPosition
    clusterTime := term.timestamp
    timeUnit := term.timeUnit }.emit (.onNewLeadershipTermEvent term))

def shouldSnapshot (flags : Int) : Bool :=
  flags = clusterActionFlagsDefault || and32 flags agent.standbySnapshotFlags ≠ 0

/-- `takeSnapshot`: the service is called once the sessions are written; what was opened for it is closed
again on every path. -/
def takeSnapshot (agent : Agent) (logPosition : Int) : Agent × Int :=
  match env.takeSnapshot logPosition with
  | .ok recordingId => (agent.emit .onTakeSnapshot, recordingId)
  | .error _ => (agent, null)

def onServiceAction (logPosition timestamp : Int) (action : ClusterAction) (flags : Int) : Except Stop Agent :=
  let agent := { agent with logPosition := logPosition, clusterTime := timestamp }
  if action = .SNAPSHOT ∧ agent.shouldSnapshot flags then
    let (agent, recordingId) := agent.takeSnapshot env logPosition
    agent.serviceAckRequest o env logPosition timestamp recordingId
  else .ok agent

def onMembershipChange (logPosition timestamp : Int) (changeType : ChangeType) (memberId : Int) : Except Stop Agent :=
  let agent := { agent with logPosition := logPosition, clusterTime := timestamp }
  if memberId = agent.memberId ∧ changeType = .QUIT then agent.terminate o env else .ok agent

/-! ## The log adapter -/

/-- `boundedLogAdapter.onMessage`, on the decoded message and the position of its (last) frame. -/
def onMessage (position : Int) : LogMessage → Except Stop Agent
  | .timerEvent correlationId timestamp => .ok (agent.onTimerEvent position correlationId timestamp)
  | .sessionOpen leadershipTermId clusterSessionId timestamp responseStreamId responseChannel encodedPrincipal =>
    match agent.onSessionOpen env leadershipTermId position clusterSessionId timestamp responseStreamId
      responseChannel encodedPrincipal with
    | .ok agent => .ok agent
    | .error _ => .error .panic
  | .sessionClose _ clusterSessionId timestamp closeReason =>
    .ok (agent.onSessionClose position clusterSessionId timestamp closeReason)
  | .clusterActionRequest _ logPosition timestamp action flags =>
    agent.onServiceAction o env logPosition timestamp action flags
  | .newLeadershipTerm term => agent.onNewLeadershipTermEvent o term
  | .membershipChange logPosition timestamp changeType memberId =>
    agent.onMembershipChange o env logPosition timestamp changeType memberId
  | .sessionMessage clusterSessionId timestamp payload =>
    .ok (agent.onSessionMessage position clusterSessionId timestamp payload)
  | .ignored => .ok agent
  | .outOfBounds => .error .fatal

/-- `boundedLogAdapter.onFragment`. -/
def onFragment (fragment : LogFragment) : Except Stop Agent :=
  if fragment.flags &&& 0xC0 = 0xC0 then agent.onMessage o env fragment.position (decode fragment.payload)
  else if fragment.flags &&& 0x80 = 0x80 then .ok { agent with builder := some fragment.payload }
  else
    match agent.builder with
    | none => .ok agent
    | some builder =>
      if builder.length = 0 then .ok agent
      else
        let builder := builder ++ fragment.payload
        if fragment.flags &&& 0x40 = 0x40 then do
          let agent ← { agent with builder := some builder }.onMessage o env fragment.position (decode builder)
          return { agent with builder := some [] }
        else .ok { agent with builder := some builder }

/-- The fragments of one poll of the log. -/
def onFragments (fragments : List LogFragment) : Except Stop Agent :=
  fragments.foldlM (fun agent fragment => agent.onFragment o env decode fragment) agent

/-- `boundedLogAdapter.isDone`. -/
def isLogDone : Bool :=
  agent.maxLogPosition ≤ env.log.position || env.log.isEndOfStream || env.log.isClosed

/-! ## Joining and leaving the log -/

/-- `setRole`: the service is told of a change only. -/
def setRole (newRole : Role) : Agent :=
  if newRole ≠ agent.role then { agent with role := newRole }.emit (.onRoleChange newRole) else agent

/-- `joinActiveLog`. Its error is dropped by the caller; the changes made before it stay. -/
def joinActiveLog (event : ActiveLogEvent) : Except Stop Agent :=
  let logSub := agent.subscriptionAttempts
  let agent := { agent with subscriptionAttempts := logSub + 1 }
  match env.joinLog with
  | .error _ => .ok agent
  | .ok imagePosition =>
    let agent := { agent with logSubscriptions := agent.logSubscriptions ++ [logSub] }
    if imagePosition ≠ agent.logPosition then .ok agent
    else if event.logPosition ≠ agent.logPosition then .ok agent
    else do
      let agent := { agent with
        image := some logSub
        maxLogPosition := event.maxLogPosition
        standbySnapshotFlags :=
          if event.isStandby then clusterActionFlagsStandbySnapshot else clusterActionFlagsDefault }
      let agent ← agent.serviceAckRequest o env event.logPosition agent.clusterTime null
      return { agent with memberId := event.memberId }.setRole event.role

/-- `closeLog`: the adapter closes its image and forgets it. -/
def closeLog : Agent :=
  let agent := if agent.logPosition < env.log.position then { agent with logPosition := env.log.position } else agent
  { agent with image := none }.setRole .follower

/-! ## The service adapter -/

def onJoinLog (event : ActiveLogEvent) : Agent :=
  { agent with maxLogPosition := event.logPosition, activeLogEvent := some event }

/-- `serviceAdapter.onFragment`, on the decoded message. -/
def onServiceMessage : ServiceMessage → Except Stop Agent
  | .joinLog event => .ok (agent.onJoinLog event)
  | .serviceTerminationPosition logPosition => .ok { agent with terminationPosition := logPosition }
  | .requestServiceAck logPosition => .ok { agent with requestedAckPosition := logPosition }
  | .ignored => .ok agent
  | .outOfBounds => .error .fatal

def pollControl : Except Stop Agent :=
  env.control.foldlM (fun agent message => agent.onServiceMessage message) agent

/-- The log that was announced is joined once there is no log. -/
def joinAnnounced : Except Stop Agent :=
  match agent.activeLogEvent, agent.image with
  | some event, none => { agent with activeLogEvent := none }.joinActiveLog o env event
  | _, _ => .ok agent

def isTerminationDue : Bool :=
  agent.terminationPosition ≠ null && agent.terminationPosition ≤ agent.logPosition

def terminateIfDue : Except Stop Agent :=
  if agent.isTerminationDue then agent.terminate o env else .ok agent

def isAckDue : Bool :=
  agent.requestedAckPosition ≠ null && agent.requestedAckPosition ≤ agent.logPosition

def ackIfDue : Except Stop Agent :=
  if agent.isAckDue then do
    let agent ← agent.serviceAckRequest o env agent.logPosition agent.clusterTime null
    return { agent with requestedAckPosition := null }
  else .ok agent

def pollServiceAdapter : Except Stop Agent := do
  let agent ← agent.pollControl env
  let agent ← agent.joinAnnounced o env
  let agent ← agent.terminateIfDue o env
  agent.ackIfDue o env

/-! ## The duty cycle -/

/-- `checkForClockTick`; `commitPosition` is set before the first duty cycle. -/
def checkForClockTick : Except Stop (Bool × Agent) :=
  if agent.cachedTimeMs ≠ env.nowMs then
    if env.isCounterAllocated then .ok (true, { agent with cachedTimeMs := env.nowMs }) else .error .panic
  else .ok (false, agent)

/-- The log part of `DoWork`. -/
def pollLog : Except Stop Agent :=
  match agent.image with
  | none => .ok agent
  | some _ => do
    let agent ← agent.onFragments o env decode env.log.fragments
    if env.log.fragments.length = 0 ∧ agent.isLogDone env then return agent.closeLog env else return agent

/-- `DoWork`. -/
def doWork : Except Stop Agent := do
  let (isTick, agent) ← agent.checkForClockTick env
  let agent ← if isTick then agent.pollServiceAdapter o env else .ok agent
  agent.pollLog o env decode

end Agent

end AeronGo.Cluster.Service
