import AeronGo.Cluster.Session
import AeronGo.Laws.Atomic.Buffer
import AeronGo.Laws.Cluster.Leader

/-!
# The identity of a session

The part of a client that says whose session it is (`Identity`) is a machine of its own: what an egress message does
to it depends on nothing else (`identity_onFragment`). Its invariant is that the ids of a connected client are those
in both messages, and that a client that waits for a reply waits for the answer to the last connect request (`Own`).
So only the answer to that request connects a client, only messages of its session reach the listener, and others
change nothing (`session_identity`). The correlation ids are taken as they come; that a cluster repeats none is not
assumed.
-/

namespace AeronGo.Cluster

open Machine Atomic AeronCluster

variable {opts : Options} {creates : Nat → Bool} {env : PollEnv}

/-! ## The messages that carry the ids -/

/-- The bytes that a leadership term id and a cluster session id leave. -/
def idBytes (m : Memory) (ids : Int × Int) : Memory := put 8 (put 8 m 8 ids.1) 16 ids.2

section PutIds

variable {buf : Buffer} (hs : Addressable buf) (h : 24 ≤ buf.length)

include hs h

theorem putIds_ok (ids : Int × Int) : putIds ids buf = .ok { buf with bytes := idBytes buf.bytes ids } := by
  have hs' : Addressable { buf with bytes := put 8 buf.bytes 8 ids.1 } := hs
  rw [putIds, Buffer.putInt64_ok hs (by decide) (by omega), ok_bind,
    Buffer.putInt64_ok hs' (by decide) (show (16 : Int) + 8 ≤ buf.length by omega)]
  rfl

end PutIds

/-- The bytes of a message before ids are stored in it. -/
def messageBytes (templateId blockLength : Int) : Memory :=
  put 2 (put 2 (put 2 (put 2 (fun _ => 0) 0 blockLength) 2 templateId) 4 111) 6 16

theorem makeClusterMessageBuffer_ok (templateId : Int) {blockLength : Int} (lo : 0 ≤ blockLength)
    (hi : blockLength ≤ 1024) :
    makeClusterMessageBuffer templateId blockLength = .ok ⟨messageBytes templateId blockLength, 8 + blockLength⟩ := by
  have hs : ∀ m, Addressable ⟨m, 8 + blockLength⟩ := fun m => show 8 + blockLength ≤ 1073741824 by omega
  have hin : ∀ offset : Int, offset ≤ 6 → offset + 2 ≤ 8 + blockLength := by
    intro offset h
    omega
  rw [makeClusterMessageBuffer, Buffer.putUInt16_ok (hs _) (by decide) (hin 0 (by decide)), ok_bind,
    Buffer.putUInt16_ok (hs _) (by decide) (hin 2 (by decide)), ok_bind,
    Buffer.putUInt16_ok (hs _) (by decide) (hin 4 (by decide)), ok_bind,
    Buffer.putUInt16_ok (hs _) (by decide) (hin 6 (by decide))]
  rfl

/-- The message is the one with the template, and its ids are the given ones. -/
def EncodesIds (buf : Except Stop Buffer) (templateId blockLength leadershipTermId clusterSessionId : Int) : Prop :=
  ∃ b, buf = .ok b ∧ b.length = 8 + blockLength ∧ getUInt16 b.bytes 0 = blockLength ∧
    getUInt16 b.bytes 2 = templateId ∧ getInt64 b.bytes 8 = i64 leadershipTermId ∧
    getInt64 b.bytes 16 = i64 clusterSessionId

theorem encodesIds {templateId blockLength : Int} (ht : 0 ≤ templateId ∧ templateId < 65536) (lo : 16 ≤ blockLength)
    (hi : blockLength ≤ 1024) (ids : Int × Int) :
    EncodesIds (makeClusterMessageBuffer templateId blockLength >>= putIds ids) templateId blockLength ids.1 ids.2 := by
  have hs : Addressable ⟨messageBytes templateId blockLength, 8 + blockLength⟩ :=
    show 8 + blockLength ≤ 1073741824 by omega
  -- the ids are stored behind the header fields
  have hbehind : AgreeOutside 8 24 (messageBytes templateId blockLength)
      (idBytes (messageBytes templateId blockLength) ids) :=
    ((AgreeOutside.put 8 _ 8 ids.1).mono (by decide)).trans
      ((AgreeOutside.put 8 _ 16 ids.2).mono (by decide))
  rw [makeClusterMessageBuffer_ok templateId (by omega) hi, ok_bind, putIds_ok hs (show 24 ≤ 8 + blockLength by omega)]
  refine ⟨_, rfl, rfl, ?_, ?_, ?_, ?_⟩
  · rw [hbehind.getUInt16 (by decide), messageBytes]
    simp (disch := decide) only [getUInt16_put_of_outside, getUInt16_put]
    omega
  · rw [hbehind.getUInt16 (by decide), messageBytes]
    simp (disch := decide) only [getUInt16_put_of_outside, getUInt16_put]
    omega
  · rw [← getInt64_put (messageBytes templateId blockLength) 8 ids.1]
    exact getInt64_congr fun i _ _ => put_of_outside (.inl (by omega))
  · exact getInt64_put _ 16 ids.2

/-! ## The identity machine -/

/-- What a client knows of its session, and the calls it made. -/
structure Identity where
  state : ClientState
  clusterSessionId : Int
  leadershipTermId : Int
  sessionMsgHdr : Int × Int
  keepAlive : Int × Int
  correlationId : Int
  calls : List ListenerCall

def identity (c : AeronCluster) : Identity where
  state := c.state
  clusterSessionId := c.clusterSessionId
  leadershipTermId := c.leadershipTermId
  sessionMsgHdr := c.sessionMsgHdr
  keepAlive := c.keepAlive
  correlationId := c.correlationId
  calls := c.calls

namespace Identity

/-- An event for a client that waits for the reply to its request. -/
def onReply (i : Identity) (e : SessionEvent) : Identity :=
  match e.code with
  | .ok =>
    { i with
      state := .connected
      clusterSessionId := e.clusterSessionId
      leadershipTermId := e.leadershipTermId
      sessionMsgHdr := (e.leadershipTermId, e.clusterSessionId)
      keepAlive := (e.leadershipTermId, e.clusterSessionId)
      calls := i.calls ++ [.onConnect] }
  | .redirect => { i with state := .awaitPublicationConnected }
  | .error => { i with state := .disconnected, calls := i.calls ++ [.onError e.detail] }
  | .authenticationRejected =>
    { i with
      state := .disconnected
      calls := i.calls ++ [.onError ("authentication rejected (".toList ++ e.detail ++ [')'])] }
  | _ => i

/-- An event for a session that is open. -/
def onEvent (i : Identity) (e : SessionEvent) : Identity :=
  match e.code with
  | .closed => { i with state := .closed, calls := i.calls ++ [.onDisconnect e.detail] }
  | .error => { i with calls := i.calls ++ [.onError e.detail] }
  | _ => i

/-- What an egress message does to an identity. -/
def handle (i : Identity) : Egress → Identity
  | .sessionMessage clusterSessionId timestamp payload =>
    if i.state = .connected ∧ clusterSessionId = i.clusterSessionId then
      { i with calls := i.calls ++ [.onMessage timestamp payload] }
    else i
  | .sessionEvent e =>
    if i.state = .awaitConnectReply ∧ e.correlationId = i.correlationId then i.onReply e
    else if i.state = .connected ∧ e.clusterSessionId = i.clusterSessionId then i.onEvent e
    else i
  | .newLeaderEvent e =>
    if i.state = .connected ∧ e.clusterSessionId = i.clusterSessionId then
      { i with
        leadershipTermId := e.leadershipTermId
        sessionMsgHdr := (e.leadershipTermId, i.sessionMsgHdr.2)
        keepAlive := (e.leadershipTermId, i.keepAlive.2)
        calls := i.calls ++ [.onNewLeader e.leadershipTermId e.leaderMemberId] }
    else i
  | .ignored => i

section Handle

variable {i : Identity} {e : SessionEvent}

theorem handle_reply (h : i.state = .awaitConnectReply ∧ e.correlationId = i.correlationId) :
    i.handle (.sessionEvent e) = i.onReply e := if_pos h

theorem handle_newLeader {e : NewLeaderEvent} (h : i.state = .connected ∧ e.clusterSessionId = i.clusterSessionId) :
    i.handle (.newLeaderEvent e) =
      { i with
        leadershipTermId := e.leadershipTermId
        sessionMsgHdr := (e.leadershipTermId, i.sessionMsgHdr.2)
        keepAlive := (e.leadershipTermId, i.keepAlive.2)
        calls := i.calls ++ [.onNewLeader e.leadershipTermId e.leaderMemberId] } := if_pos h

/-- What a message can do to an identity. -/
inductive Handled (i : Identity) : Egress → Identity → Prop
  | same (m : Egress) : Handled i m i
  | message {clusterSessionId timestamp : Int} {payload : List UInt8}
      (h : i.state = .connected ∧ clusterSessionId = i.clusterSessionId) :
      Handled i (.sessionMessage clusterSessionId timestamp payload)
        { i with calls := i.calls ++ [.onMessage timestamp payload] }
  | reply {e : SessionEvent} (h : i.state = .awaitConnectReply ∧ e.correlationId = i.correlationId) :
      Handled i (.sessionEvent e) (i.onReply e)
  | event {e : SessionEvent} (h : i.state = .connected ∧ e.clusterSessionId = i.clusterSessionId) :
      Handled i (.sessionEvent e) (i.onEvent e)
  | newLeader {e : NewLeaderEvent} (h : i.state = .connected ∧ e.clusterSessionId = i.clusterSessionId) :
      Handled i (.newLeaderEvent e)
        { i with
          leadershipTermId := e.leadershipTermId
          sessionMsgHdr := (e.leadershipTermId, i.sessionMsgHdr.2)
          keepAlive := (e.leadershipTermId, i.keepAlive.2)
          calls := i.calls ++ [.onNewLeader e.leadershipTermId e.leaderMemberId] }

theorem handled (i : Identity) (m : Egress) : Handled i m (i.handle m) := by
  unfold handle
  split
  · split
    · exact .message ‹_›
    · exact .same _
  · split
    · exact .reply ‹_›
    · split
      · exact .event ‹_›
      · exact .same _
  · split
    · exact .newLeader ‹_›
    · exact .same _
  · exact .same _

end Handle

end Identity

/-! ### The member table is no part of it -/

section Frame

variable (c : AeronCluster)

theorem TableRun.identity {q : Prop} {t : Int → Prop} {d : AeronCluster} (h : TableRun q t c d) :
    identity d = identity c := by
  rw [h.frame]
  rfl

theorem identity_updateMemberEndpoints (creates : Nat → Bool) (endpoints : Text) :
    identity (updateMemberEndpoints creates c endpoints) = identity c := (foldEndpoints_run (q := True) _).identity

theorem identity_closeNonLeaderPublications : identity c.closeNonLeaderPublications = identity c :=
  (closeNonLeaderPublications_run (q := False) nofun).identity

theorem identity_createMemberPublications (creates : Nat → Bool) (ids : List Int) :
    identity (c.createMemberPublications creates ids).2 = identity c :=
  (createMemberPublications_run (q := True) ids).identity

end Frame

/-! ### Egress messages -/

theorem identity_onSessionEvent (creates : Nat → Bool) (env : PollEnv) (c : AeronCluster) (e : SessionEvent) :
    identity (c.onSessionEvent creates env e) = (identity c).handle (.sessionEvent e) := by
  unfold AeronCluster.onSessionEvent
  by_cases hreply : c.state = .awaitConnectReply ∧ e.correlationId = c.correlationId
  · rw [if_pos hreply, Identity.handle_reply hreply, Identity.onReply]
    cases e.code with
    | ok =>
      have hclose := identity_closeNonLeaderPublications { c with
        leadershipTermId := e.leadershipTermId
        leaderMemberId := e.leaderMemberId
        clusterSessionId := e.clusterSessionId
        sessionMsgHdr := (e.leadershipTermId, e.clusterSessionId)
        keepAlive := (e.leadershipTermId, e.clusterSessionId)
        state := .connected }
      exact congrArg (fun i : Identity => { i with calls := i.calls ++ [ListenerCall.onConnect] }) hclose
    | redirect =>
      have hclose := (identity_closeNonLeaderPublications _).trans
        (identity_updateMemberEndpoints { c with leaderMemberId := e.leaderMemberId } creates e.detail)
      exact congrArg (fun i : Identity => { i with state := .awaitPublicationConnected }) hclose
    | error | authenticationRejected | closed | other code => rfl
  · rw [if_neg hreply]
    by_cases hown : c.state = .connected ∧ e.clusterSessionId = c.clusterSessionId
    · rw [if_pos hown]
      refine .trans ?_ ((if_neg hreply).trans (if_pos hown)).symm
      unfold Identity.onEvent
      cases e.code <;> rfl
    · rw [if_neg hown]
      exact ((if_neg hreply).trans (if_neg hown)).symm

theorem identity_onNewLeaderEvent (opts : Options) (creates : Nat → Bool) (c : AeronCluster) (e : NewLeaderEvent) :
    identity (c.onNewLeaderEvent opts creates e) = (identity c).handle (.newLeaderEvent e) := by
  unfold AeronCluster.onNewLeaderEvent
  by_cases hown : c.state = .connected ∧ e.clusterSessionId = c.clusterSessionId
  · rw [if_pos hown, Identity.handle_newLeader hown]
    by_cases hopts : opts.ingressEndpoints ≠ []
    · -- whatever was closed before, the list is read with the new ids in place
      have hlist : ∀ d : AeronCluster, identity d = { identity c with
            leadershipTermId := e.leadershipTermId
            sessionMsgHdr := (e.leadershipTermId, c.sessionMsgHdr.2)
            keepAlive := (e.leadershipTermId, c.keepAlive.2) } →
          ∀ d', updateMemberEndpoints creates d e.ingressEndpoints = d' →
          identity { d' with calls := d'.calls ++ [.onNewLeader e.leadershipTermId e.leaderMemberId] } =
            { identity c with
              leadershipTermId := e.leadershipTermId
              sessionMsgHdr := (e.leadershipTermId, c.sessionMsgHdr.2)
              keepAlive := (e.leadershipTermId, c.keepAlive.2)
              calls := c.calls ++ [.onNewLeader e.leadershipTermId e.leaderMemberId] } := by
        rintro d hd _ rfl
        have hkept := (identity_updateMemberEndpoints d creates e.ingressEndpoints).trans hd
        exact congrArg (fun i : Identity =>
          { i with calls := i.calls ++ [ListenerCall.onNewLeader e.leadershipTermId e.leaderMemberId] }) hkept
      simp only [if_pos hopts]
      refine hlist _ ?_ _ rfl
      split
      · rfl
      · rfl
    · simp only [if_neg hopts]
      rfl
  · rw [if_neg hown]
    exact (if_neg hown).symm

theorem identity_onSessionMessage (c : AeronCluster) (clusterSessionId timestamp : Int) (payload : List UInt8) :
    identity (c.onSessionMessage clusterSessionId timestamp payload) =
      (identity c).handle (.sessionMessage clusterSessionId timestamp payload) := by
  unfold AeronCluster.onSessionMessage
  split
  next hstate => exact (if_neg fun h => hstate h.1).symm
  next hstate =>
    split
    next hown => exact (if_pos ⟨not_not.mp hstate, hown⟩).symm
    next hown => exact (if_neg fun h => hown h.2).symm

/-- **What a message does to the identity of a client depends on nothing else.** -/
theorem identity_onFragment (opts : Options) (creates : Nat → Bool) (env : PollEnv) (c : AeronCluster) (m : Egress) :
    identity (c.onFragment opts creates env m) = (identity c).handle m := by
  cases m with
  | sessionMessage clusterSessionId timestamp payload => exact identity_onSessionMessage c clusterSessionId timestamp payload
  | sessionEvent e => exact identity_onSessionEvent creates env c e
  | newLeaderEvent e => exact identity_onNewLeaderEvent opts creates c e
  | ignored => rfl

/-! ### The stores behind the ids

The source has two buffers and stores ids in them, in place, as messages come. The ids of the model are those that
these stores leave. -/

/-- The stores in each of the buffers when a message comes. -/
def Identity.stores (i : Identity) (m : Egress) (buf : Buffer) : Except Stop Buffer :=
  match m with
  | .newLeaderEvent e =>
    if i.state = .connected ∧ e.clusterSessionId = i.clusterSessionId then buf.putInt64 8 e.leadershipTermId
    else .ok buf
  | .sessionEvent e =>
    if (i.state = .awaitConnectReply ∧ e.correlationId = i.correlationId) ∧ e.code = .ok then
      putIds (e.leadershipTermId, e.clusterSessionId) buf
    else .ok buf
  | _ => .ok buf

/-- What the stores make of a message with some ids is the message with others. -/
def Identity.Stores (i : Identity) (m : Egress) (ids ids' : Int × Int) : Prop :=
  ∀ (templateId : Int) {blockLength : Int}, 16 ≤ blockLength → blockLength ≤ 1024 →
    ((makeClusterMessageBuffer templateId blockLength >>= putIds ids) >>= i.stores m) =
      (makeClusterMessageBuffer templateId blockLength >>= putIds ids')

variable {m : Egress} {c c' : AeronCluster} {requested : Option Int}

/-- The ids of a connected client are those in both messages, and a client that waits for a reply waits
for the answer to the last connect request. -/
structure Identity.Own (requested : Option Int) (i : Identity) : Prop where
  ids : i.state = .connected → i.sessionMsgHdr = (i.leadershipTermId, i.clusterSessionId) ∧
    i.keepAlive = (i.leadershipTermId, i.clusterSessionId)
  awaited : i.state = .awaitConnectReply → requested = some i.correlationId

namespace Identity

variable {requested : Option Int} {i : Identity}

/-- A client that is neither connected nor waiting for a reply. -/
theorem Own.of_apart (hconnected : i.state ≠ .connected) (hawait : i.state ≠ .awaitConnectReply) : i.Own requested :=
  ⟨fun h => absurd h hconnected, fun h => absurd h hawait⟩

theorem Own.onReply (h : i.Own requested) (e : SessionEvent) :
    (i.onReply e).Own requested := by
  unfold Identity.onReply
  cases e.code with
  | ok => exact ⟨fun _ => ⟨rfl, rfl⟩, nofun⟩
  | redirect | error | authenticationRejected => exact .of_apart nofun nofun
  | closed | other code => exact h

theorem Own.onEvent (h : i.Own requested) (e : SessionEvent) : (i.onEvent e).Own requested := by
  unfold Identity.onEvent
  cases e.code with
  | closed => exact .of_apart nofun nofun
  | error => exact ⟨h.ids, h.awaited⟩
  | ok | redirect | authenticationRejected | other code => exact h

/-- **A message keeps the invariant.** -/
theorem Own.handle (h : i.Own requested) (m : Egress) : (i.handle m).Own requested := by
  have hm := i.handled m
  generalize i.handle m = j at hm ⊢
  cases hm with
  | same => exact h
  | message _ => exact ⟨h.ids, h.awaited⟩
  | @reply e _ => exact h.onReply e
  | @event e _ => exact h.onEvent e
  | newLeader hown =>
    obtain ⟨hhdr, halive⟩ := h.ids hown.1
    refine ⟨fun _ => ⟨?_, ?_⟩, fun hawait => ?_⟩
    · rw [hhdr]
    · rw [halive]
    · cases hown.1.symm.trans hawait

/-- **Only the awaited answer connects.** -/
theorem connected_handle (hbefore : i.state ≠ .connected) {m : Egress} (hafter : (i.handle m).state = .connected) :
    i.state = .awaitConnectReply ∧ ∃ e, m = .sessionEvent e ∧ e.code = .ok ∧ e.correlationId = i.correlationId := by
  have hm := i.handled m
  generalize i.handle m = j at hm hafter
  cases hm with
  | same => exact absurd hafter hbefore
  | message hown | event hown | newLeader hown => exact absurd hown.1 hbefore
  | @reply e hreply =>
    refine ⟨hreply.1, e, rfl, ?_, hreply.2⟩
    unfold Identity.onReply at hafter
    generalize e.code = code at hafter
    cases code with
    | ok => rfl
    | redirect | error | authenticationRejected => cases hafter
    | closed | other code => exact absurd hafter hbefore

/-- The calls that carry a message or a leader are for messages of the client's own session. -/
def OwnCall (i : Identity) (m : Egress) : ListenerCall → Prop
  | .onMessage timestamp payload => i.state = .connected ∧ m = .sessionMessage i.clusterSessionId timestamp payload
  | .onNewLeader leadershipTermId leaderMemberId => i.state = .connected ∧
      ∃ endpoints, m = .newLeaderEvent ⟨leadershipTermId, i.clusterSessionId, leaderMemberId, endpoints⟩
  | _ => True

/-- **Only messages of the own session reach the listener.** -/
theorem calls_handle (i : Identity) (m : Egress) :
    ∃ new, (i.handle m).calls = i.calls ++ new ∧ ∀ call ∈ new, i.OwnCall m call := by
  have hnone : ∀ j : Identity, j.calls = i.calls →
      ∃ new, j.calls = i.calls ++ new ∧ ∀ call ∈ new, i.OwnCall m call :=
    fun j hj => ⟨[], by rw [hj, List.append_nil], nofun⟩
  have hone : ∀ (j : Identity) (call : ListenerCall), j.calls = i.calls ++ [call] → i.OwnCall m call →
      ∃ new, j.calls = i.calls ++ new ∧ ∀ call ∈ new, i.OwnCall m call := by
    intro j call hj hcall
    refine ⟨[call], hj, fun call' hmem => ?_⟩
    rw [List.mem_singleton.mp hmem]
    exact hcall
  have hm := i.handled m
  generalize i.handle m = j at hm ⊢
  cases hm with
  | same => exact hnone i rfl
  | message hown => exact hone _ _ rfl ⟨hown.1, by rw [hown.2]⟩
  | @reply e _ =>
    unfold Identity.onReply
    cases e.code with
    | ok | error | authenticationRejected => exact hone _ _ rfl trivial
    | redirect => exact hnone _ rfl
    | closed | other code => exact hnone i rfl
  | @event e _ =>
    unfold Identity.onEvent
    cases e.code with
    | closed | error => exact hone _ _ rfl trivial
    | ok | redirect | authenticationRejected | other code => exact hnone i rfl
  | @newLeader e hown => exact hone _ _ rfl ⟨hown.1, e.ingressEndpoints, by rw [← hown.2]⟩

end Identity

/-! ## Foreign messages -/

/-- The cluster session id that a message carries. -/
def Egress.clusterSessionId? : Egress → Option Int
  | .sessionMessage clusterSessionId _ _ => some clusterSessionId
  | .sessionEvent e => some e.clusterSessionId
  | .newLeaderEvent e => some e.clusterSessionId
  | .ignored => none

/-- A connected client, its publications included, does not change on a message of another session. -/
theorem onFragment_foreign (hstate : c.state = .connected)
    (h : m.clusterSessionId? ≠ some c.clusterSessionId) : c.onFragment opts creates env m = c := by
  cases m with
  | sessionMessage clusterSessionId timestamp payload =>
    have hother : clusterSessionId ≠ c.clusterSessionId := fun heq => h (congrArg some heq)
    exact (if_neg (not_not_intro hstate)).trans (if_neg hother)
  | sessionEvent e =>
    have hreply : ¬(c.state = .awaitConnectReply ∧ e.correlationId = c.correlationId) := by
      rintro ⟨hawait, _⟩
      cases hstate.symm.trans hawait
    have hother : ¬(c.state = .connected ∧ e.clusterSessionId = c.clusterSessionId) := fun hown => h (congrArg some hown.2)
    exact (if_neg hreply).trans (if_neg hother)
  | newLeaderEvent e =>
    have hother : ¬(c.state = .connected ∧ e.clusterSessionId = c.clusterSessionId) := fun hown => h (congrArg some hown.2)
    exact if_neg hother
  | ignored => rfl

/-- A client that waits for a reply does not change on the answer to another request. -/
theorem onFragment_foreign_reply (hstate : c.state = .awaitConnectReply) {e : SessionEvent}
    (h : e.correlationId ≠ c.correlationId) : c.onFragment opts creates env (.sessionEvent e) = c := by
  have hother : ¬(c.state = .connected ∧ e.clusterSessionId = c.clusterSessionId) := by
    rintro ⟨hconnected, _⟩
    cases hstate.symm.trans hconnected
  exact (if_neg fun hreply => h hreply.2).trans (if_neg hother)

/-! ## Connect requests -/

/-- A client that asks: a publication took its request and it waits for the reply, or it stays as it is or gives
up. -/
def Asked (env : PollEnv) (i : Identity) (taken : Option Nat) (i' : Identity) : Prop :=
  ∃ state correlationId, i' = { i with state := state, correlationId := correlationId } ∧
    ((∃ pub, taken = some pub ∧ state = .awaitConnectReply ∧ correlationId = env.correlation pub) ∨
      taken = none ∧ (state = i.state ∨ state = .disconnected))

theorem Asked.refl (env : PollEnv) (i : Identity) : Asked env i none i :=
  ⟨i.state, i.correlationId, rfl, .inr ⟨rfl, .inl rfl⟩⟩

/-- Asking the members: the first that takes the request is waited for. -/
theorem asked_connectMembers (env : PollEnv) (ids : List Int) :
    ∀ c : AeronCluster,
      Asked env (identity c) (if env.encodes then c.firstTaking env ids else none) (identity (c.connectMembers env ids)) := by
  induction ids with
  | nil =>
    intro c
    rw [show (if env.encodes then c.firstTaking env [] else none) = none from ite_self none]
    exact .refl env _
  | cons memberId rest ih =>
    intro c
    unfold AeronCluster.firstTaking AeronCluster.connectMembers
    rw [List.findSome?_cons]
    cases hpub : (c.member? memberId).bind (·.publication) with
    | none => exact ih c
    | some pub =>
      simp only [Option.filter_some]
      cases hconnected : c.isConnected env pub with
      | false => exact ih c
      | true =>
        simp only [if_true, Bool.true_and, sendConnectRequest]
        cases hencodes : env.encodes with
        | false => exact ⟨c.state, env.correlation pub, rfl, .inr ⟨rfl, .inl rfl⟩⟩
        | true =>
          by_cases hoffer : 0 ≤ env.offer pub
          · simp only [hoffer, decide_true, if_true, Bool.not_true, Bool.false_eq_true, if_false]
            exact ⟨.awaitConnectReply, env.correlation pub, rfl, .inl ⟨pub, rfl, rfl, rfl⟩⟩
          · simp only [hoffer, decide_false, if_true, Bool.not_true, Bool.false_eq_true, if_false]
            obtain ⟨state, correlationId, hidentity, hcase⟩ :=
              ih { c with ingressPub := some pub, correlationId := env.correlation pub }
            rw [if_pos hencodes] at hcase
            exact ⟨state, correlationId, hidentity, hcase⟩

theorem asked_awaitPublicationConnected {n : Int} (hstate : c.state = .awaitPublicationConnected)
    (h : c.awaitPublicationConnected opts env = some (n, c')) :
    Asked env (identity c) (c.sentRequest env) (identity c') := by
  unfold AeronCluster.awaitPublicationConnected at h
  unfold AeronCluster.sentRequest
  split at h
  next hchannel =>
    cases h
    rw [if_neg fun hask => hask.2.1 hchannel]
    exact .refl env _
  next hchannel =>
  split at h
  next hlate =>
    cases h
    rw [if_neg fun hask => absurd hask.2.2.1 (Int.not_le.mpr hlate)]
    exact ⟨.disconnected, c.correlationId, rfl, .inr ⟨rfl, .inr rfl⟩⟩
  next hearly =>
  have htime : env.now ≤ c.awaitTimeoutTime := Int.not_lt.mp hearly
  split at h
  next hmembers =>
    cases h
    have hasked := asked_connectMembers env env.order c
    simpa only [hstate, hchannel, htime, hmembers, ne_eq, not_false_eq_true, true_and, if_true] using hasked
  next hmembers =>
    obtain ⟨pub, hpub, hval⟩ := Option.map_eq_some_iff.mp h
    simp only [hstate, hchannel, htime, hmembers, hpub, ne_eq, not_false_eq_true, true_and, if_false, Option.filter_some]
    cases hconnected : c.isConnected env pub with
    | false =>
      simp only [hconnected, Bool.false_eq_true, if_false, Prod.mk.injEq] at hval
      rw [← hval.2]
      simp only [Bool.false_and, Bool.false_eq_true, if_false, ite_self]
      exact .refl env _
    | true =>
      simp only [hconnected, if_true, sendConnectRequest] at hval
      cases hencodes : env.encodes with
      | false =>
        simp only [hencodes, Bool.not_false, if_true, Prod.mk.injEq] at hval
        rw [← hval.2]
        exact ⟨c.state, env.correlation pub, rfl, .inr ⟨rfl, .inl rfl⟩⟩
      | true =>
        by_cases hoffer : 0 ≤ env.offer pub
        · simp only [hencodes, hoffer, Bool.not_true, Bool.false_eq_true, if_false, if_true, Prod.mk.injEq] at hval
          rw [← hval.2]
          exact ⟨.awaitConnectReply, env.correlation pub, rfl, .inl ⟨pub, by simp [hoffer], rfl, rfl⟩⟩
        · simp only [hencodes, hoffer, Bool.not_true, Bool.false_eq_true, if_false, Prod.mk.injEq] at hval
          rw [← hval.2]
          exact ⟨c.state, env.correlation pub, rfl, .inr ⟨by simp [hoffer], .inl rfl⟩⟩

/-! ## Polls -/

/-- The client after the first messages of a poll. -/
def moment (opts : Options) (creates : Nat → Bool) (env : PollEnv) (c : AeronCluster) (k : Nat) : AeronCluster :=
  ((handled env c).take k).foldl (onFragment opts creates env) c

theorem moment_length (c : AeronCluster) :
    moment opts creates env c (handled env c).length = (handled env c).foldl (onFragment opts creates env) c := by
  rw [moment, List.take_length]

theorem moment_succ (c : AeronCluster) {k : Nat} (h : (handled env c)[k]? = some m) :
    moment opts creates env c (k + 1) = (moment opts creates env c k).onFragment opts creates env m := by
  rw [moment, List.take_add_one, h, List.foldl_append]
  rfl

theorem own_moment (h : (identity c).Own requested) (k : Nat) :
    (identity (moment opts creates env c k)).Own requested := by
  unfold moment
  induction (handled env c).take k generalizing c with
  | nil => exact h
  | cons m rest ih =>
    refine ih ?_
    rw [identity_onFragment]
    exact h.handle m

/-- A poll that hands over no message leaves the client unconnected and reports at most a disconnect. -/
def Apart (c c' : AeronCluster) : Prop :=
  c'.state ≠ .connected ∧ ∃ details : List Text, c'.calls = c.calls ++ details.map .onDisconnect

theorem apart_of_calls (hstate : c'.state ≠ .connected) (hcalls : c'.calls = c.calls) :
    Apart c c' :=
  ⟨hstate, [], by rw [hcalls, List.map_nil, List.append_nil]⟩

theorem identity_createPublications (creates : Nat → Bool) (env : PollEnv) (c : AeronCluster) :
    ∃ state, (state = c.state ∨ state = .awaitPublicationConnected) ∧
      identity (c.createPublications creates env).2 = { identity c with state := state } := by
  have hcreated : ∀ (created : Bool) (d : AeronCluster), identity d = identity c →
      ∃ state, (state = c.state ∨ state = .awaitPublicationConnected) ∧
        identity (if created then
          ((1 : Int), { d with state := .awaitPublicationConnected, awaitTimeoutTime := env.now + 5000 })
        else (0, d)).2 = { identity c with state := state } := by
    intro created d hd
    cases created with
    | false => exact ⟨c.state, .inl rfl, hd⟩
    | true =>
      exact ⟨.awaitPublicationConnected, .inr rfl,
        congrArg (fun i : Identity => { i with state := .awaitPublicationConnected }) hd⟩
  unfold AeronCluster.createPublications
  by_cases hm : c.memberByIdMap ≠ []
  · rw [if_pos hm]
    exact hcreated _ _ (identity_createMemberPublications c creates env.order)
  · rw [if_neg hm]
    unfold createIngressPublication
    cases hi : c.ingressPub with
    | some pub => exact hcreated true c rfl
    | none =>
      by_cases hc : creates c.attempts
      · simp only [hc, if_true]
        exact hcreated true { c with ingressPub := some c.attempts, attempts := c.attempts + 1 } rfl
      · simp only [hc, Bool.false_eq_true, if_false]
        exact hcreated false { c with attempts := c.attempts + 1 } rfl

/-- **What a poll does to the identity of a client**: it hands over messages, or the client is not connected
afterwards. -/
theorem own_poll {n : Int} (h : (identity c).Own requested)
    (hret : c.poll opts creates env = some (n, c')) :
    (identity c').Own (((c.sentRequest env).map env.correlation).or requested) ∧
      (c' = moment opts creates env c (handled env c).length ∨ Apart c c') := by
  have hnone : c.state ≠ .awaitPublicationConnected → ((c.sentRequest env).map env.correlation).or requested = requested := by
    intro hstate
    rw [AeronCluster.sentRequest, if_neg fun hask => hstate hask.1]
    rfl
  rcases poll_cases hret with ⟨hstate, rfl | rfl⟩ | ⟨hstate, rfl⟩ | ⟨hstate, haw⟩ |
    ⟨hstate, ⟨details, _, _, hleft, rfl⟩ | rfl⟩ | ⟨hstate, rfl⟩
  · rw [hnone (by simp [hstate])]
    exact ⟨h, .inr (apart_of_calls (by simp [hstate]) rfl)⟩
  · rw [hnone (by simp [hstate])]
    exact ⟨.of_apart nofun nofun, .inr (apart_of_calls nofun rfl)⟩
  · rw [hnone (by simp [hstate])]
    obtain ⟨state, hcase, hidentity⟩ := identity_createPublications creates env c
    have hapart : state ≠ .connected ∧ state ≠ .awaitConnectReply := by
      rcases hcase with rfl | rfl <;> simp [hstate]
    have hafter : (c.createPublications creates env).2.state = state := congrArg Identity.state hidentity
    refine ⟨?_, .inr (apart_of_calls ?_ (congrArg Identity.calls hidentity))⟩
    · rw [hidentity]
      exact .of_apart hapart.1 hapart.2
    · rw [hafter]
      exact hapart.1
  · obtain ⟨state, correlationId, hidentity, hcase⟩ := asked_awaitPublicationConnected hstate haw
    have hafter : c'.state = state := congrArg Identity.state hidentity
    rw [hidentity]
    rcases hcase with ⟨pub, hsent, rfl, rfl⟩ | ⟨hsent, hkept⟩
    · rw [hsent]
      refine ⟨⟨nofun, fun _ => rfl⟩, .inr (apart_of_calls ?_ (congrArg Identity.calls hidentity))⟩
      rw [hafter]
      nofun
    · have hapart : state ≠ .connected ∧ state ≠ .awaitConnectReply := by
        rcases hkept with rfl | rfl <;> simp [show (identity c).state = _ from hstate]
      refine ⟨.of_apart hapart.1 hapart.2, .inr (apart_of_calls ?_ (congrArg Identity.calls hidentity))⟩
      rw [hafter]
      exact hapart.1
  · have hapart : c.state ≠ .awaitPublicationConnected := by
      rcases hstate with hstate | hstate <;> simp [hstate]
    rw [hnone hapart]
    rcases hleft with rfl | rfl
    · exact ⟨.of_apart nofun nofun, .inr ⟨nofun, details, rfl⟩⟩
    · exact ⟨.of_apart nofun nofun, .inr ⟨nofun, details, rfl⟩⟩
  · have hapart : c.state ≠ .awaitPublicationConnected := by
      rcases hstate with hstate | hstate <;> simp [hstate]
    rw [hnone hapart, ← moment_length]
    exact ⟨own_moment h _, .inl rfl⟩
  · rw [hnone (by simp [hstate])]
    exact ⟨h, .inr (apart_of_calls (by simp [hstate]) rfl)⟩

/-! ## Runs -/

/-- **In every run a waiting client waits for the last request, and a connected one has its ids in place.** -/
theorem reachable_own {s : Session} (hs : (sessionSystem opts creates).Reachable s) :
    (identity s.client).Own s.requested := by
  refine hs.invariant (I := fun s => (identity s.client).Own s.requested) ?_ ?_
  · rintro s ⟨hclient, _⟩
    have hstate : (identity s.client).state = .disconnected := by
      rw [hclient]
      exact state_newAeronCluster
    exact .of_apart (by simp [hstate]) (by simp [hstate])
  · rintro s env t h ⟨hpoll, hrequested⟩
    obtain ⟨n, hret⟩ := poll_of_pollStep hpoll
    rw [hrequested]
    exact (own_poll h hret).1

/-- Both messages are encoded with the ids of the client. -/
def EncodesOwnIds (c : AeronCluster) : Prop :=
  EncodesIds c.sessionMsgHdrBuffer 1 24 c.leadershipTermId c.clusterSessionId ∧
    EncodesIds c.keepAliveBuffer 5 16 c.leadershipTermId c.clusterSessionId

theorem encodesOwnIds_of_own (h : (identity c).Own requested)
    (hstate : c.state = .connected) : EncodesOwnIds c := by
  obtain ⟨hhdr, halive⟩ := h.ids hstate
  have hhdr' : c.sessionMsgHdr = (c.leadershipTermId, c.clusterSessionId) := hhdr
  have halive' : c.keepAlive = (c.leadershipTermId, c.clusterSessionId) := halive
  constructor
  · rw [AeronCluster.sessionMsgHdrBuffer, hhdr']
    exact encodesIds (by decide) (by decide) (by decide) _
  · rw [AeronCluster.keepAliveBuffer, halive']
    exact encodesIds (by decide) (by decide) (by decide) _

/-- What a message that a client handles does, where the last connect request is known. -/
structure Handles (requested : Option Int) (c : AeronCluster) (m : Egress) (c' : AeronCluster) : Prop where
  /-- Only the answer to the last connect request connects. -/
  connects : c.state ≠ .connected → c'.state = .connected →
    ∃ e, m = .sessionEvent e ∧ e.code = .ok ∧ requested = some e.correlationId
  /-- The listener is given messages and leaders of the client's own session only, and only while connected. -/
  calls : ∃ new, c'.calls = c.calls ++ new ∧ ∀ call ∈ new, (identity c).OwnCall m call
  foreign : c.state = .connected → m.clusterSessionId? ≠ some c.clusterSessionId → c' = c
  foreignReply : c.state = .awaitConnectReply → ∀ e, m = .sessionEvent e → requested ≠ some e.correlationId → c' = c

theorem handles_onFragment (h : (identity c).Own requested) (m : Egress) :
    Handles requested c m (c.onFragment opts creates env m) where
  connects := by
    intro hbefore hafter
    have hidentity := identity_onFragment opts creates env c m
    have hafter' : ((identity c).handle m).state = .connected := (congrArg Identity.state hidentity).symm.trans hafter
    obtain ⟨hawait, e, rfl, hcode, hcorrelation⟩ := Identity.connected_handle hbefore hafter'
    exact ⟨e, rfl, hcode, by rw [hcorrelation]; exact h.awaited hawait⟩
  calls := by
    obtain ⟨new, hcalls, hown⟩ := (identity c).calls_handle m
    refine ⟨new, ?_, hown⟩
    rw [← identity_onFragment opts creates env] at hcalls
    exact hcalls
  foreign := fun hstate hother => onFragment_foreign hstate hother
  foreignReply := by
    rintro hstate e rfl hother
    refine onFragment_foreign_reply hstate fun heq => hother ?_
    rw [heq]
    exact h.awaited hstate

/-- **A cluster client keeps to its session.** From every reachable state, in every poll: whenever the client is
connected, between the messages too, both messages carry its ids; each message that is handled is handled as
`Handles` says; and a poll that hands over no message does not connect. -/
theorem session_identity {s : Session} (hs : (sessionSystem opts creates).Reachable s) (env : PollEnv) :
    (∀ k, (moment opts creates env s.client k).state = .connected → EncodesOwnIds (moment opts creates env s.client k)) ∧
    (∀ k m, (handled env s.client)[k]? = some m →
      Handles s.requested (moment opts creates env s.client k) m (moment opts creates env s.client (k + 1))) ∧
    ∀ t, (sessionSystem opts creates).next s env t →
      t.client = moment opts creates env s.client (handled env s.client).length ∨ Apart s.client t.client := by
  have hown := reachable_own hs
  refine ⟨fun k => encodesOwnIds_of_own (own_moment hown k), ?_, ?_⟩
  · intro k m hm
    rw [moment_succ s.client hm]
    exact handles_onFragment (own_moment hown k) m
  · rintro t ⟨hpoll, _⟩
    obtain ⟨n, hret⟩ := poll_of_pollStep hpoll
    exact (own_poll hown hret).2

/-- Every run of the client is one that notes its requests. -/
theorem exists_session (hc : (clientSystem opts creates).Reachable c) :
    ∃ requested, (sessionSystem opts creates).Reachable ⟨c, requested⟩ := by
  induction hc with
  | start hinit => exact ⟨none, .start ⟨hinit, rfl⟩⟩
  | step env _ hpoll ih =>
    obtain ⟨requested, hs⟩ := ih
    exact ⟨_, hs.step env ⟨hpoll, rfl⟩⟩

theorem session_identity_connecting :
    ∃ c, (clientSystem twoMemberOptions fun _ => true).Reachable c ∧ (c.state = .connected ∧ c.clusterSessionId = 7) ∧
      EncodesOwnIds c := by
  obtain ⟨c, hreach, hend⟩ := System.exists_reachable (· = newAeronCluster twoMemberOptions fun _ => true)
    (pollStep twoMemberOptions fun _ => true) rfl (connecting ++ [leaderOne ['0', '=', 'c', ',', '1', '=', 'b']])
    (fun c => c.state = .connected ∧ c.clusterSessionId = 7) (by decide +kernel)
  obtain ⟨hstate, hid⟩ := of_decide_eq_true hend
  obtain ⟨requested, hs⟩ := exists_session hreach
  exact ⟨c, hreach, ⟨hstate, hid⟩, (session_identity hs (calm 6 [])).1 0 hstate⟩

end AeronGo.Cluster
