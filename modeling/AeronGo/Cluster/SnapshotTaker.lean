import AeronGo.Cluster.Snapshot
import AeronGo.Stream

/-!
# Taking a snapshot and loading it

`cluster/snapshot_taker.go` with the part of the agent's `takeSnapshot` that writes the sessions, and the
loader's `poll`, over one log: the taker offers its messages to the publication, and the loader polls an
image of the same log. The rounds of the taker's offer loop, the polls and what the media driver does are
interleaved. Whether the taker's time is up when a round begins is part of the round: nothing is assumed
of the clock, so it may be up before a message was offered at all.

The driver keeps to what `Stream.Driver` says.
-/

namespace AeronGo.Cluster.Service

open Machine Util Atomic LogBuffer Codecs
open AeronGo.Stream (StreamParams)
open AeronGo.Publication (notConnected backPressured adminAction)

/-! ## The messages of a snapshot -/

structure Snapshot where
  logPosition : Int
  leadershipTermId : Int
  timeUnit : ClusterTimeUnit
  appVersion : Int
  sessions : List ClientSession

namespace Snapshot

/-- The arguments of `SnapshotMarkerPacket` in `markSnapshot`. -/
def marker (snapshot : Snapshot) (mark : SnapshotMark) : SnapshotMarker :=
  ⟨snapshotTypeId, snapshot.logPosition, snapshot.leadershipTermId, 0, mark, snapshot.timeUnit, snapshot.appVersion⟩

/-- What `takeSnapshot` writes: `markBegin`, `snapshotSession` for each session, `markEnd`. -/
def packets (snapshot : Snapshot) (rangeChecking : Bool) : List (Except CodecError (List UInt8)) :=
  snapshotMarkerPacket rangeChecking (snapshot.marker .BEGIN) ::
    (snapshot.sessions.map (clientSessionPacket rangeChecking) ++
      [snapshotMarkerPacket rangeChecking (snapshot.marker .END)])

end Snapshot

/-! ## The taker -/

inductive TakeError where
  | codec (error : CodecError)
  | text (text : String)
deriving DecidableEq, Repr

/-- What remains to be offered, what the loop of `offer` last got for the first of it, and the error that
`takeSnapshot` ends with. `late` is history that no step reads: the time of some message was up before it
was offered once. -/
structure SnapshotTaker where
  remaining : List (Except CodecError (List UInt8))
  ret : Int
  err : Option TakeError
  late : Bool

namespace SnapshotTaker

/-- `offer` has returned. -/
def returned (taker : SnapshotTaker) (ret : Int) : SnapshotTaker :=
  if ret < 0 then { taker with err := some (.text ("snapshotTaker.offer failed: " ++ toString ret)) }
  else { taker with remaining := taker.remaining.tail, ret := 0 }

/-- The time is up: `offer` returns what it got last. That is zero, no failure, if it has not offered yet. -/
def timedOut (taker : SnapshotTaker) : SnapshotTaker :=
  { taker.returned taker.ret with late := taker.late || taker.ret = 0 }

/-- `Publication.Offer` has returned: three of its values are tried again. -/
def offered (taker : SnapshotTaker) (ret : Int) : SnapshotTaker :=
  if ret = notConnected ∨ ret = backPressured ∨ ret = adminAction then { taker with ret := ret }
  else taker.returned ret

end SnapshotTaker

/-! ## The loader's poll -/

variable (p : StreamParams) (addPublication : Nat → Option String)

/-- `snapshotLoader.onFragment` on a frame. -/
def onSnapshotFrame : FragmentHandler Loading :=
  fun l buffer offset length headerOffset => do
    let payload ← buffer.writeBytes offset length
    let position ← headerPosition p.toLogParams buffer headerOffset
    return l.onFragment addPublication ⟨payload, position⟩

/-- `snapshotLoader.poll`: one fragment, until the loader is done. -/
def pollSnapshot : Stream.Consumer Loading :=
  fun termBuffers image _ l =>
    if l.1.isDone then .ok (0, image, l)
    else image.poll p.toLogParams termBuffers (onSnapshotFrame p addPublication) 1 l

/-! ## Both on one log -/

structure SnapshotLog where
  taker : SnapshotTaker
  stream : Stream.State Loading

namespace SnapshotLog

inductive Action where
  | attempt (expired : Bool)
  | poll
  | driver (limit : Int) (isConnected : Bool)
  | clean (index lo hi : Int)

/-- One round of the taker's `offer` loop for the message at the front. -/
def attempt (s : SnapshotLog) (expired : Bool) : Except Stop SnapshotLog :=
  match s.taker.err, s.taker.remaining with
  | none, .error e :: _ => .ok { s with taker := { s.taker with err := some (.codec e) } }
  | none, .ok bytes :: _ =>
    if expired then .ok { s with taker := s.taker.timedOut }
    else do
      let buffer := makeBuffer bytes
      let length := i32 bytes.length
      let r ← Stream.offer p s.stream.publication buffer 0 length none
      return ⟨s.taker.offered r.value, s.stream.returned r (.message (sourceBytes buffer 0 length))⟩
  | _, _ => .ok s

/-- A step of the loader or the driver. -/
def onStream (s : SnapshotLog) (a : Stream.Action) : Except Stop SnapshotLog := do
  let stream ← Stream.step p (pollSnapshot p addPublication) s.stream a
  return { s with stream := stream }

def step (s : SnapshotLog) : Action → Except Stop SnapshotLog
  | .attempt expired => s.attempt p expired
  | .poll => s.onStream p addPublication (.poll 1)
  | .driver limit isConnected => s.onStream p addPublication (.driver limit isConnected)
  | .clean index lo hi => s.onStream p addPublication (.clean index lo hi)

/-- What the driver keeps to. -/
def Driver (s t : SnapshotLog) : Action → Prop
  | .attempt expired => expired = false → Stream.CleanAhead p s.stream t.stream
  | .poll => True
  | .driver limit isConnected => Stream.Driver p s.stream t.stream (.driver limit isConnected)
  | .clean index lo hi => Stream.Driver p s.stream t.stream (.clean index lo hi)

/-- A snapshot to be written to an empty log, and a fresh loader of an agent. -/
def initial (packets : List (Except CodecError (List UInt8))) (agent : Agent) : SnapshotLog :=
  ⟨⟨packets, 0, none, false⟩, Stream.State.initial p (SnapshotLoader.fresh, agent)⟩

def system (packets : List (Except CodecError (List UInt8))) (agent : Agent) : System SnapshotLog Action where
  init := (· = initial p packets agent)
  next s a t := s.step p addPublication a = .ok t ∧ Driver p s t a

end SnapshotLog

end AeronGo.Cluster.Service
