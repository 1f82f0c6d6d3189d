import AeronGo.Cluster.Agent

/-!
# Loading a snapshot

`cluster/snapshot_loader.go`, and `loadSnapshot` and `recoverState` of the agent. The loader is handed
the fragments of the snapshot image one by one, each as its payload bytes with the position of its frame.

What precedes the loader in `loadSnapshot` (connecting to the archive, starting the replay, subscribing
to it) is its `setup`: the error of the first step that fails. Polling an image that has nothing more to
give goes on for ever, which is the result `waiting`.
-/

namespace AeronGo.Cluster.Service

open Machine Atomic Codecs

def snapshotTypeId : Int := 2

def sbeHeaderLength : Nat := 8

structure SnapshotFragment where
  payload : List UInt8
  position : Int
deriving DecidableEq, Repr

/-- An error of the loader: one of a codec, or a text. -/
inductive LoadError where
  | codec (error : CodecError)
  | text (text : String)
deriving DecidableEq, Repr

structure SnapshotLoader where
  isDone : Bool
  inSnapshot : Bool
  appVersion : Int
  timeUnit : ClusterTimeUnit
  err : Option LoadError
deriving DecidableEq, Repr

namespace SnapshotLoader

/-- `newSnapshotLoader`. -/
def fresh : SnapshotLoader := ⟨false, false, 0, .MILLIS, none⟩

/-- Stop with an error. -/
def stop (loader : SnapshotLoader) (err : LoadError) : SnapshotLoader :=
  { loader with err := some err, isDone := true }

def onMarker (loader : SnapshotLoader) (position : Int) (marker : SnapshotMarker) : SnapshotLoader :=
  if marker.typeId ≠ snapshotTypeId then
    { loader with err := some (.text ("unexpected snapshot type: " ++ toString marker.typeId)) }
  else
    match marker.mark with
    | .BEGIN =>
      if loader.inSnapshot then loader.stop (.text ("already in snapshot, pos=" ++ toString position))
      else { loader with inSnapshot := true, appVersion := marker.appVersion, timeUnit := marker.timeUnit }
    | .END =>
      if loader.inSnapshot then { loader with inSnapshot := false, isDone := true }
      else loader.stop (.text ("missing beging snapshot, pos=" ++ toString position))
    | mark => loader.stop (.text ("unexpected snapshot mark, pos=" ++ toString position ++ " inSnapshot=" ++
        toString loader.inSnapshot ++ " mark=" ++ toString mark.toInt))

end SnapshotLoader

variable (addPublication : Nat → Option String)

/-- The loader and the agent that it adds sessions to. -/
abbrev Loading := SnapshotLoader × Agent

namespace Loading

def onSession (l : Loading) (s : ClientSession) : Loading :=
  match l.2.newContainerClientSession addPublication s.clusterSessionId s.responseStreamId s.responseChannel
    s.encodedPrincipal with
  | (.ok session, agent) => (l.1, agent.addSessionFromSnapshot session)
  | (.error err, agent) => (l.1.stop (.text err), agent)

/-- `snapshotLoader.onFragment`. -/
def onFragment (l : Loading) (f : SnapshotFragment) : Loading :=
  if f.payload.length < sbeHeaderLength then l
  else
    match MessageHeader.decode f.payload with
    | .error _ => l
    | .ok (header, body) =>
      if header.schemaId ≠ schemaId then l
      else if header.templateId = SnapshotMarker.templateId then
        match SnapshotMarker.decode header.version header.blockLength true body with
        | .error err => (l.1.stop (.codec err), l.2)
        | .ok (marker, _) => (l.1.onMarker f.position marker, l.2)
      else if header.templateId = ClientSession.templateId then
        match ClientSession.decode header.version header.blockLength true body with
        | .error err => (l.1.stop (.codec err), l.2)
        | .ok (session, _) => l.onSession addPublication session
      else l

/-- The loop of `loadSnapshot`: fragments, one a poll, until the loader is done. Also what is left. -/
def load : Loading → List SnapshotFragment → Loading × List SnapshotFragment
  | l, [] => (l, [])
  | l, f :: rest => if l.1.isDone then (l, f :: rest) else load (l.onFragment addPublication f) rest

end Loading

/-- How `loadSnapshot` ends. -/
inductive LoadResult where
  | returned (err : Option String) (agent : Agent)
  | panicked
  | waiting
deriving DecidableEq, Repr

variable (o : Options)

/-- What `loadSnapshot` does with a loader that is done. -/
def finishLoad (l : Loading) : LoadResult :=
  if semanticVersionMajor o.appVersion ≠ semanticVersionMajor l.1.appVersion then .panicked
  else .returned none ({ l.2 with timeUnit := l.1.timeUnit }.emit (.onStart true))

def loadSnapshot (agent : Agent) (setup : Option String) (fragments : List SnapshotFragment) : LoadResult :=
  match setup with
  | some err => .returned (some err) agent
  | none =>
    let (l, _) := Loading.load addPublication (SnapshotLoader.fresh, agent) fragments
    if l.1.isDone then finishLoad o l else .waiting

/-! ## Recovery -/

/-- What recovery finds in the counters, and the snapshot that it replays. -/
structure Recovery where
  leadershipTermId : Int
  logPosition : Int
  clusterTime : Int
  serviceCount : Except String Int
  snapshotRecordingId : Except String Int
  setup : Option String
  fragments : List SnapshotFragment
  clientId : Int

/-- The start of the service: without a snapshot, or with the one of the recovery counter. -/
def startService (agent : Agent) (r : Recovery) : LoadResult :=
  if r.leadershipTermId = -1 then .returned none (agent.emit (.onStart false))
  else
    match r.serviceCount with
    | .error err => .returned (some err) agent
    | .ok serviceCount =>
      if serviceCount < 1 then .returned (some ("invalid service count: " ++ toString serviceCount)) agent
      else
        match r.snapshotRecordingId with
        | .error err => .returned (some err) agent
        | .ok _ => loadSnapshot addPublication o agent r.setup r.fragments

/-- What the recovery counter says of the state. -/
def Agent.recovering (agent : Agent) (r : Recovery) : Agent :=
  { agent with
    logPosition := r.logPosition
    clusterTime := r.clusterTime
    leadershipTermId := r.leadershipTermId
    isServiceActive := true }

/-- `recoverState`, where it comes to its ack. -/
def recoverState (env : Env) (agent : Agent) (r : Recovery) : Option Agent :=
  match startService env.addPublication o (agent.recovering r) r with
  | .returned none agent =>
    match agent.serviceAckRequest o env agent.logPosition agent.clusterTime r.clientId with
    | .ok agent => some agent
    | .error _ => none
  | _ => none

end AeronGo.Cluster.Service
