import Mathlib.Data.List.Basic
import AeronGo.Machine.Run

/-!
# The cluster client

`cluster/client/aeron_cluster.go`: the client's connection state machine, its member table and
its ingress publications.

A publication is a reference to a heap object with a closed flag. The reference is the number of
the attempt that created it, so references are never reused; `creates` says for each attempt of a
run whether the driver grants it. `memberByIdMap` is a list of members with distinct ids, and the
order in which one `range` over the Go map visits them is part of the environment of a poll. The
egress subscription hands over whole messages, already reassembled and decoded: a fragment that is
too short, of another schema or undecodable is `Egress.ignored`. Log output is left out.

A dereference of a nil `ingressPub` stops the process: it is `none`.
-/

namespace AeronGo.Cluster

/-- A Go string; the separators of the formats read here are single bytes. -/
abbrev Text := List Char

/-! ## Endpoint lists -/

/-- The digits of a decimal numeral, most significant first. -/
def parseDigits (acc : Nat) : Text → Option Nat
  | [] => some acc
  | ch :: rest => if ch.isDigit then parseDigits (10 * acc + (ch.toNat - 48)) rest else none

/-- The unsigned part of a numeral: at least one digit. -/
def parseUint : Text → Option Nat
  | [] => none
  | text => parseDigits 0 text

/-- `strconv.ParseInt(text, 10, 32)`: an optional sign, digits, and a value in range. -/
def parseInt (text : Text) : Option Int :=
  match text with
  | '-' :: digits => (parseUint digits).bind fun n => if n ≤ 2147483648 then some (-(n : Int)) else none
  | '+' :: digits => (parseUint digits).bind fun n => if n < 2147483648 then some (n : Int) else none
  | digits => (parseUint digits).bind fun n => if n < 2147483648 then some (n : Int) else none

/-- One `memberId=address` entry; `none` where the source logs a warning and skips it. -/
def parseEndpoint (endpoint : Text) : Option (Int × Text) :=
  match endpoint.idxOf? '=' with
  | some (delim + 1) =>
    (parseInt (endpoint.take (delim + 1))).map fun memberId => (memberId, endpoint.drop (delim + 2))
  | _ => none

/-- The usable entries of an endpoint list, in order. -/
def endpointEntries (endpoints : Text) : List (Int × Text) :=
  if endpoints = [] then [] else (endpoints.splitOn ',').filterMap parseEndpoint

/-! ## State -/

inductive ClientState where
  | disconnected
  | createPublications
  | awaitPublicationConnected
  | awaitConnectReply
  | connected
  | closed
deriving DecidableEq, Repr

inductive EventCode where
  | ok
  | error
  | redirect
  | authenticationRejected
  | closed
  | other (code : Int)
deriving DecidableEq, Repr

/-- A member of the cluster and the publication to its ingress, if any. -/
structure MemberIngress where
  memberId : Int
  endpoint : Text
  publication : Option Nat
deriving DecidableEq, Repr

/-- The calls made on the egress listener. -/
inductive ListenerCall where
  | onConnect
  | onDisconnect (details : Text)
  | onMessage (timestamp : Int) (payload : List UInt8)
  | onNewLeader (leadershipTermId leaderMemberId : Int)
  | onError (details : Text)
deriving DecidableEq, Repr

structure Options where
  ingressEndpoints : Text
  ingressChannel : Text
  retryBackoff : Int
deriving DecidableEq, Repr

structure AeronCluster where
  ingressPub : Option Nat
  clusterSessionId : Int
  leadershipTermId : Int
  leaderMemberId : Int
  memberByIdMap : List MemberIngress
  /-- The leadership term id and cluster session id that the session message header encodes. -/
  sessionMsgHdr : Int × Int
  /-- The same two fields of the keep-alive message. -/
  keepAlive : Int × Int
  state : ClientState
  correlationId : Int
  nextRetryConnectTime : Int
  awaitTimeoutTime : Int
  /-- The number of publications asked for so far; the next reference. -/
  attempts : Nat
  /-- The closed flag of each publication object. -/
  isClosed : Nat → Bool
  calls : List ListenerCall

structure SessionEvent where
  clusterSessionId : Int
  correlationId : Int
  leadershipTermId : Int
  leaderMemberId : Int
  code : EventCode
  detail : Text
deriving DecidableEq, Repr

structure NewLeaderEvent where
  leadershipTermId : Int
  clusterSessionId : Int
  leaderMemberId : Int
  ingressEndpoints : Text
deriving DecidableEq, Repr

/-- A whole message of the egress stream. -/
inductive Egress where
  | sessionMessage (clusterSessionId timestamp : Int) (payload : List UInt8)
  | sessionEvent (event : SessionEvent)
  | newLeaderEvent (event : NewLeaderEvent)
  | ignored
deriving DecidableEq, Repr

/-- What one `Poll` observes of the world around the client. -/
structure PollEnv where
  now : Int
  /-- The connected flag in the log metadata of each publication. -/
  connected : Nat → Bool
  /-- The order in which a `range` over `memberByIdMap` visits its keys. -/
  order : List Int
  /-- The result of `TryResolveChannelEndpointPort`, empty while unresolved. -/
  responseChannel : Text
  /-- The correlation id drawn for a connect request on each publication. -/
  correlation : Nat → Int
  /-- Whether the connect request encodes. -/
  encodes : Bool
  /-- The result of `Offer` on each publication. -/
  offer : Nat → Int
  /-- The messages the egress subscription hands over in this poll. -/
  egress : List Egress
  /-- The number of fragments they took. -/
  fragments : Int

namespace AeronCluster

variable (opts : Options) (creates : Nat → Bool) (env : PollEnv) (c : AeronCluster)

/-- `Publication.IsConnected`: open, and marked connected by the driver. -/
def isConnected (pub : Nat) : Bool := !c.isClosed pub && env.connected pub

/-- `Publication.Close`: the flag is set whether or not the driver takes the command. -/
def closePub (pub : Nat) : AeronCluster :=
  { c with isClosed := fun p => if p = pub then true else c.isClosed p }

def member? (memberId : Int) : Option MemberIngress :=
  c.memberByIdMap.find? fun m => m.memberId = memberId

/-- `memberByIdMap[m.memberId] = m`. -/
def setMember (m : MemberIngress) : AeronCluster :=
  if (c.member? m.memberId).isSome then
    { c with memberByIdMap := c.memberByIdMap.map fun x => if x.memberId = m.memberId then m else x }
  else { c with memberByIdMap := c.memberByIdMap ++ [m] }

/-- `memberIngress.close`. -/
def closeMember (m : MemberIngress) : AeronCluster :=
  match m.publication with
  | some pub => (c.closePub pub).setMember { m with publication := none }
  | none => c

/-- `createIngressPublication`: a fresh publication where the driver grants it. -/
def createIngressPublication : Option Nat × AeronCluster :=
  (if creates c.attempts then some c.attempts else none, { c with attempts := c.attempts + 1 })

/-! ## Member endpoints -/

/-- The member of an entry: created, or re-addressed and closed when its address changed. -/
def addressMember (memberId : Int) (address : Text) : AeronCluster :=
  match c.member? memberId with
  | none => c.setMember ⟨memberId, address, none⟩
  | some m =>
    if address ≠ m.endpoint then
      (c.setMember { m with endpoint := address }).closeMember { m with endpoint := address }
    else c

/-- The leader's entry: its publication, created if missing, becomes the ingress publication. -/
def adoptLeader (memberId : Int) : AeronCluster :=
  match c.member? memberId with
  | none => c
  | some m =>
    match m.publication with
    | some pub => { c with ingressPub := some pub }
    | none =>
      match c.createIngressPublication creates with
      | (some pub, c) => { c.setMember { m with publication := some pub } with ingressPub := some pub }
      | (none, c) => { c with ingressPub := none }

def updateMemberEndpoint (entry : Int × Text) : AeronCluster :=
  let c := c.addressMember entry.1 entry.2
  if entry.1 = c.leaderMemberId then c.adoptLeader creates entry.1 else c

def updateMemberEndpoints (endpoints : Text) : AeronCluster :=
  (endpointEntries endpoints).foldl (updateMemberEndpoint creates) c

/-- `closeNonLeaderPublications`; the members are closed independently of one another. -/
def closeNonLeaderPublications : AeronCluster :=
  c.memberByIdMap.foldl (fun c m => if m.memberId ≠ c.leaderMemberId then c.closeMember m else c) c

/-! ## Egress messages -/

def onSessionMessage (clusterSessionId timestamp : Int) (payload : List UInt8) : AeronCluster :=
  if c.state ≠ .connected then c
  else if clusterSessionId = c.clusterSessionId then
    { c with calls := c.calls ++ [.onMessage timestamp payload] }
  else c

def onNewLeaderEvent (e : NewLeaderEvent) : AeronCluster :=
  if c.state = .connected ∧ e.clusterSessionId = c.clusterSessionId then
    let c := { c with
      leadershipTermId := e.leadershipTermId
      leaderMemberId := e.leaderMemberId
      sessionMsgHdr := (e.leadershipTermId, c.sessionMsgHdr.2)
      keepAlive := (e.leadershipTermId, c.keepAlive.2) }
    let c :=
      if opts.ingressEndpoints ≠ [] then
        -- `Close` on a nil publication does nothing
        let c := match c.ingressPub with
          | some pub => c.closePub pub
          | none => c
        updateMemberEndpoints creates { c with ingressPub := none } e.ingressEndpoints
      else c
    { c with calls := c.calls ++ [.onNewLeader e.leadershipTermId e.leaderMemberId] }
  else c

def onSessionEvent (e : SessionEvent) : AeronCluster :=
  if c.state = .awaitConnectReply ∧ e.correlationId = c.correlationId then
    match e.code with
    | .ok =>
      let c := { c with
        leadershipTermId := e.leadershipTermId
        leaderMemberId := e.leaderMemberId
        clusterSessionId := e.clusterSessionId
        sessionMsgHdr := (e.leadershipTermId, e.clusterSessionId)
        keepAlive := (e.leadershipTermId, e.clusterSessionId)
        state := .connected }
      let c := c.closeNonLeaderPublications
      { c with calls := c.calls ++ [.onConnect] }
    | .redirect =>
      let c := updateMemberEndpoints creates { c with leaderMemberId := e.leaderMemberId } e.detail
      { c.closeNonLeaderPublications with state := .awaitPublicationConnected }
    | .error =>
      { c with
        calls := c.calls ++ [.onError e.detail]
        state := .disconnected
        nextRetryConnectTime := env.now + 5000 }
    | .authenticationRejected =>
      { c with
        calls := c.calls ++ [.onError ("authentication rejected (".toList ++ e.detail ++ [')'])]
        state := .disconnected
        nextRetryConnectTime := env.now + 60000 }
    | _ => c
  else if c.state = .connected ∧ e.clusterSessionId = c.clusterSessionId then
    match e.code with
    | .closed => { c with calls := c.calls ++ [.onDisconnect e.detail], state := .closed }
    | .error => { c with calls := c.calls ++ [.onError e.detail] }
    | _ => c
  else c

def onFragment : Egress → AeronCluster
  | .sessionMessage clusterSessionId timestamp payload =>
    c.onSessionMessage clusterSessionId timestamp payload
  | .sessionEvent e => c.onSessionEvent creates env e
  | .newLeaderEvent e => c.onNewLeaderEvent opts creates e
  | .ignored => c

/-- `pollEgress`: a message takes at least one fragment, so the limit bounds the messages too. -/
def pollEgress (fragmentLimit : Nat) : Int × AeronCluster :=
  (env.fragments, (env.egress.take fragmentLimit).foldl (onFragment opts creates env) c)

/-! ## Connecting -/

/-- The loop of `createPublications`; `false` is its early return with the driver's error. -/
def createMemberPublications (c : AeronCluster) : List Int → Bool × AeronCluster
  | [] => (true, c)
  | memberId :: rest =>
    match c.member? memberId with
    | none => c.createMemberPublications rest
    | some m =>
      match m.publication with
      | some _ => c.createMemberPublications rest
      | none =>
        match c.createIngressPublication creates with
        | (some pub, c) => (c.setMember { m with publication := some pub }).createMemberPublications rest
        | (none, c) => (false, c)

def createPublications : Int × AeronCluster :=
  let (created, c) :=
    if c.memberByIdMap ≠ [] then c.createMemberPublications creates env.order
    else
      match c.ingressPub with
      | some _ => (true, c)
      | none =>
        match c.createIngressPublication creates with
        | (some pub, c) => (true, { c with ingressPub := some pub })
        | (none, c) => (false, c)
  if created then
    (1, { c with state := .awaitPublicationConnected, awaitTimeoutTime := env.now + 5000 })
  else (0, c)

inductive SendResult where
  | sent
  | temporaryError
  | permanentError
deriving DecidableEq, Repr

/-- `sendConnectRequest` on the ingress publication. -/
def sendConnectRequest (pub : Nat) : SendResult × AeronCluster :=
  let c := { c with correlationId := env.correlation pub }
  (if !env.encodes then .permanentError
    else if 0 ≤ env.offer pub then .sent else .temporaryError, c)

/-- The loop of `awaitPublicationConnected` over the members. -/
def connectMembers (c : AeronCluster) : List Int → AeronCluster
  | [] => c
  | memberId :: rest =>
    match (c.member? memberId).bind (·.publication) with
    | none => c.connectMembers rest
    | some pub =>
      if c.isConnected env pub then
        match sendConnectRequest env { c with ingressPub := some pub } pub with
        | (.sent, c) => { c with state := .awaitConnectReply, awaitTimeoutTime := env.now + 3000 }
        | (.temporaryError, c) => c.connectMembers rest
        | (.permanentError, c) => c
      else c.connectMembers rest

def awaitPublicationConnected : Option (Int × AeronCluster) :=
  if env.responseChannel = [] then some (0, c)
  else if c.awaitTimeoutTime < env.now then
    some (0, { c with state := .disconnected, nextRetryConnectTime := env.now + opts.retryBackoff })
  else if c.memberByIdMap ≠ [] then some (0, c.connectMembers env env.order)
  else
    c.ingressPub.map fun pub =>
      if c.isConnected env pub then
        match sendConnectRequest env c pub with
        | (.sent, c) =>
          (0, { c with state := .awaitConnectReply, awaitTimeoutTime := env.now + 3000 })
        | (_, c) => (0, c)
      else (0, c)

/-! ## The client's methods -/

def poll : Option (Int × AeronCluster) :=
  match c.state with
  | .disconnected =>
    if c.nextRetryConnectTime < env.now then some (0, { c with state := .createPublications })
    else some (0, c)
  | .createPublications => some (c.createPublications creates env)
  | .awaitPublicationConnected => c.awaitPublicationConnected opts env
  | .awaitConnectReply =>
    c.ingressPub.map fun pub =>
      if c.isConnected env pub && env.now < c.awaitTimeoutTime then c.pollEgress opts creates env 1
      else
        (0, { c with state := .disconnected, nextRetryConnectTime := env.now + opts.retryBackoff })
  | .connected =>
    c.ingressPub.map fun pub =>
      if c.isConnected env pub then c.pollEgress opts creates env 10
      else
        (0, { c with
          calls := c.calls ++ [.onDisconnect "ingress publication disconnected".toList]
          state := .createPublications })
  | .closed => some (0, c)

/-- `Offer`: the value returned, with the publication's own answer given by the environment. -/
def offer (answer : Nat → Int) : Option Int :=
  if c.state ≠ .connected then some (-1) else c.ingressPub.map answer

/-- `SendKeepAlive`: up to three offers, each with its own answer. -/
def sendKeepAlive (answer : Nat → Nat → Int) : Option Bool :=
  if c.state ≠ .connected then some false
  else c.ingressPub.map fun pub => (List.range 3).any fun i => 0 ≤ answer i pub

end AeronCluster

/-- `NewAeronCluster`, once the options are accepted and the egress subscription is up. -/
def newAeronCluster (opts : Options) (creates : Nat → Bool) : AeronCluster :=
  AeronCluster.updateMemberEndpoints creates
    { ingressPub := none
      clusterSessionId := -1
      leadershipTermId := -1
      leaderMemberId := -1
      memberByIdMap := []
      sessionMsgHdr := (0, 0)
      keepAlive := (0, 0)
      state := .disconnected
      correlationId := 0
      nextRetryConnectTime := 0
      awaitTimeoutTime := 0
      attempts := 0
      isClosed := fun _ => false
      calls := [] }
    opts.ingressEndpoints

/-- A `Poll` that returns, in an environment that visits each member once per `range`. -/
def pollStep (opts : Options) (creates : Nat → Bool) (c : AeronCluster) (env : PollEnv) :
    Option AeronCluster :=
  if env.order.Perm (c.memberByIdMap.map (·.memberId)) then
    (c.poll opts creates env).map Prod.snd
  else none

/-- The client as a system of polls. -/
def clientSystem (opts : Options) (creates : Nat → Bool) : Machine.System AeronCluster PollEnv :=
  .ofStep (· = newAeronCluster opts creates) (pollStep opts creates)

end AeronGo.Cluster
