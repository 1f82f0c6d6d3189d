import AeronGo.Atomic.Buffer
import AeronGo.Cluster.Client

/-!
# The session of a cluster client

The two messages that carry the ids of a session, byte for byte, and the client with the correlation id
of the last connect request that a publication took. That id is history: no step reads it.
-/

namespace AeronGo.Cluster

open Machine Atomic

/-! ## The messages that carry the ids -/

/-- `MakeClusterMessageBuffer`: an SBE header before a block of zeros. -/
def makeClusterMessageBuffer (templateId blockLength : Int) : Except Stop Buffer := do
  let buf : Buffer := ⟨fun _ => 0, 8 + blockLength⟩
  let buf ← buf.putUInt16 0 blockLength
  let buf ← buf.putUInt16 2 templateId
  let buf ← buf.putUInt16 4 111
  buf.putUInt16 6 16

/-- The stores of a leadership term id and a cluster session id behind the header. -/
def putIds (ids : Int × Int) (buf : Buffer) : Except Stop Buffer := do
  let buf ← buf.putInt64 8 ids.1
  buf.putInt64 16 ids.2

namespace AeronCluster

/-- `sessionMsgHdrBuffer`, with the ids last stored in it. -/
def sessionMsgHdrBuffer (c : AeronCluster) : Except Stop Buffer := do
  let buf ← makeClusterMessageBuffer 1 24
  putIds c.sessionMsgHdr buf

/-- `keepAliveBuffer`, with the ids last stored in it. -/
def keepAliveBuffer (c : AeronCluster) : Except Stop Buffer := do
  let buf ← makeClusterMessageBuffer 5 16
  putIds c.keepAlive buf

/-! ## Connect requests -/

/-- The first of the members' publications, in the order of the `range`, that takes a connect request. -/
def firstTaking (env : PollEnv) (c : AeronCluster) (order : List Int) : Option Nat :=
  order.findSome? fun memberId =>
    ((c.member? memberId).bind (·.publication)).filter fun pub => c.isConnected env pub && 0 ≤ env.offer pub

/-- The publication that takes a connect request in a poll. -/
def sentRequest (env : PollEnv) (c : AeronCluster) : Option Nat :=
  if c.state = .awaitPublicationConnected ∧ env.responseChannel ≠ [] ∧ env.now ≤ c.awaitTimeoutTime ∧
      env.encodes = true then
    if c.memberByIdMap ≠ [] then c.firstTaking env env.order
    else c.ingressPub.filter fun pub => c.isConnected env pub && 0 ≤ env.offer pub
  else none

end AeronCluster

/-- A client and the correlation id of the last connect request that was sent. -/
structure Session where
  client : AeronCluster
  requested : Option Int

/-- The client as a system of polls that notes its connect requests. -/
def sessionSystem (opts : Options) (creates : Nat → Bool) : System Session PollEnv where
  init s := s.client = newAeronCluster opts creates ∧ s.requested = none
  next s env t := pollStep opts creates s.client env = some t.client ∧
    t.requested = ((s.client.sentRequest env).map env.correlation).or s.requested

end AeronGo.Cluster
