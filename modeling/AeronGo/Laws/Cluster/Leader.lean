import AeronGo.Laws.Cluster.Ingress

/-!
# The ingress publication is there when it is used

`Poll`, `Offer` and `SendKeepAlive` dereference `ingressPub` in the states that await the connect
reply or are connected, and `awaitPublicationConnected` does when the member table is empty.
`ingress_never_missing` says that none of them finds it nil, in every run whose new-leader events
serve the leader they name (`LeaderServed`). Without that the client is left connected and without
an ingress publication (`ingress_missing`): `onNewLeaderEvent` clears it first and relies on its
list to name the leader and on the driver to grant a publication.
-/

namespace AeronGo.Cluster

open AeronCluster

variable {opts : Options} {creates : Nat → Bool} {env : PollEnv} {c : AeronCluster}

/-! ## What a list does for the leader -/

/-- What an endpoint list does for the leader: the leader's address with whether it holds a
publication, the next attempt, and whether the last entry for the leader left the client with an
ingress publication. A publication is kept only at the same address. -/
def leaderServed (creates : Nat → Bool) (leader : Int) :
    Option (Text × Bool) → Nat → Bool → List (Int × Text) → Bool
  | _, _, served, [] => served
  | ingress, attempt, served, (memberId, address) :: rest =>
    if memberId = leader then
      if ingress = some (address, true) then leaderServed creates leader ingress attempt true rest
      else leaderServed creates leader (some (address, creates attempt)) (attempt + 1)
        (creates attempt) rest
    else leaderServed creates leader ingress attempt served rest

/-- A member's address with whether it holds a publication. -/
def memberIngress (c : AeronCluster) (memberId : Int) : Option (Text × Bool) :=
  (c.member? memberId).map fun m => (m.endpoint, m.publication.isSome)

/-- The list of a new-leader event that elects names the leader, and its last entry for the leader
finds a publication held at that address or is granted one. -/
def LeaderServed (opts : Options) (creates : Nat → Bool) (c : AeronCluster) : Egress → Prop
  | .newLeaderEvent e => Elects opts c e →
      leaderServed creates e.leaderMemberId (memberIngress c e.leaderMemberId) c.attempts false
        (endpointEntries e.ingressEndpoints) = true
  | _ => True

instance (c : AeronCluster) : (m : Egress) → Decidable (LeaderServed opts creates c m)
  | .newLeaderEvent e => inferInstanceAs (Decidable (Elects opts c e → _))
  | .sessionMessage .. | .sessionEvent .. | .ignored => .isTrue trivial

theorem addressMember_frame (c : AeronCluster) (memberId : Int) (address : Text) :
    (c.addressMember memberId address).ingressPub = c.ingressPub ∧
      (c.addressMember memberId address).attempts = c.attempts := by
  unfold AeronCluster.addressMember AeronCluster.closeMember
  split
  · simp
  · split
    · split <;> simp [closePub]
    · simp

/-- An entry sets the address of its member, which keeps a publication only at the same address. -/
theorem memberIngress_addressMember (c : AeronCluster) (memberId : Int) (address : Text) (x : Int) :
    memberIngress (c.addressMember memberId address) x =
      if x = memberId then some (address, decide (memberIngress c memberId = some (address, true)))
      else memberIngress c x := by
  unfold AeronCluster.addressMember AeronCluster.closeMember memberIngress
  cases hf : c.member? memberId with
  | none => by_cases hx : x = memberId <;> simp [member?_setMember, hx]
  | some m =>
    obtain ⟨_, rfl⟩ := mem_of_member? hf
    by_cases haddr : address = m.endpoint
    · by_cases hx : x = m.memberId
      · subst hx haddr
        cases hp : m.publication <;> simp [hf, hp]
      · simp [haddr, hx]
    · have hne : ¬ m.endpoint = address := fun he => haddr he.symm
      cases hp : m.publication with
      | none | some pub => by_cases hx : x = m.memberId <;> simp [haddr, hne, hp, hx, member?_setMember]

/-- The leader's entry takes the publication the leader holds, or asks for one. -/
theorem adoptLeader_spec (creates : Nat → Bool) {memberId : Int} {address : Text} {held : Bool}
    (h : memberIngress c memberId = some (address, held)) :
    (c.adoptLeader creates memberId).ingressPub.isSome = (held || creates c.attempts) ∧
      (c.adoptLeader creates memberId).attempts = (if held then c.attempts else c.attempts + 1) ∧
      memberIngress (c.adoptLeader creates memberId) memberId =
        some (address, held || creates c.attempts) := by
  obtain ⟨m, hf, hm⟩ := Option.map_eq_some_iff.mp h
  obtain ⟨rfl, rfl⟩ := Prod.mk.inj hm
  obtain ⟨_, rfl⟩ := mem_of_member? hf
  unfold AeronCluster.adoptLeader createIngressPublication memberIngress
  cases hp : m.publication with
  | some pub =>
    have hsame : ({ c with ingressPub := some pub } : AeronCluster).member? m.memberId = some m := hf
    simp [hf, hp, hsame]
  | none =>
    by_cases hc : creates c.attempts
    · have hset := member?_setMember { c with attempts := c.attempts + 1 }
        { m with publication := some c.attempts } m.memberId
      simp only [hf, hp, hc, if_true, Option.isSome_none, Option.isSome_some, Bool.or_true]
      refine ⟨trivial, by simp, ?_⟩
      exact (congrArg (Option.map _) hset).trans (by simp)
    · simp only [hf, hp, hc, Bool.false_eq_true, if_false, Option.isSome_none, Bool.or_false]
      refine ⟨trivial, trivial, ?_⟩
      exact (congrArg (Option.map _) hf).trans (by simp [hp])

/-- **The condition is exact.** Reading a list leaves the client with an ingress publication
exactly when the list serves the leader. -/
theorem ingressPub_foldEndpoints (entries : List (Int × Text)) :
    ∀ c : AeronCluster, (entries.foldl (updateMemberEndpoint creates) c).ingressPub.isSome =
      leaderServed creates c.leaderMemberId (memberIngress c c.leaderMemberId) c.attempts
        c.ingressPub.isSome entries := by
  induction entries with
  | nil => exact fun c => rfl
  | cons entry rest ih =>
    intro c
    obtain ⟨memberId, address⟩ := entry
    have hrun : TableRun True (· = memberId) c (c.updateMemberEndpoint creates (memberId, address)) :=
      updateMemberEndpoint_run rfl
    rw [List.foldl_cons, ih, congrArg leaderMemberId hrun.frame]
    obtain ⟨hin, hattempts⟩ := addressMember_frame c memberId address
    have hleader := congrArg leaderMemberId (addressMember_run (c := c) (q := True) (t := (· = memberId)) rfl address).frame
    have haddr := memberIngress_addressMember c memberId address
    simp only [AeronCluster.updateMemberEndpoint, leaderServed, hleader]
    by_cases hid : memberId = c.leaderMemberId
    · have hself := haddr memberId
      rw [if_pos rfl] at hself
      obtain ⟨hin', hattempts', hadopt⟩ := adoptLeader_spec creates hself
      subst hid
      simp only [if_true]
      rw [hin', hattempts', hadopt, hattempts]
      by_cases hheld : memberIngress c c.leaderMemberId = some (address, true)
      · simp [hheld]
      · simp [hheld]
    · simp only [if_neg hid]
      rw [haddr, if_neg (Ne.symm hid), hin, hattempts]

/-! ## The member table does not become empty -/

/-- A list that leaves the table empty had no entries, so it changed nothing. -/
theorem foldEndpoints_of_nil (entries : List (Int × Text)) (c : AeronCluster)
    (h : (entries.foldl (updateMemberEndpoint creates) c).memberByIdMap = []) :
    entries.foldl (updateMemberEndpoint creates) c = c := by
  cases entries with
  | nil => rfl
  | cons entry rest =>
    have haddress : (c.addressMember entry.1 entry.2).memberByIdMap ≠ [] := by
      intro hnil
      have hself := memberIngress_addressMember c entry.1 entry.2 entry.1
      simp [memberIngress, member?, hnil] at hself
    have hentry : (c.updateMemberEndpoint creates entry).memberByIdMap ≠ [] := by
      unfold AeronCluster.updateMemberEndpoint
      simp only
      split
      · exact (adoptLeader_run (q := True) (t := (· = entry.1)) rfl).grows.2.2 haddress
      · exact haddress
    exact absurd h ((foldEndpoints_run (q := True) rest).grows.2.2 hentry)

/-- Closing the publications of the other members leaves the client's own one alone. -/
theorem closeNonLeaderPublications_ingressPub (c : AeronCluster) :
    c.closeNonLeaderPublications.ingressPub = c.ingressPub := by
  unfold AeronCluster.closeNonLeaderPublications
  induction c.memberByIdMap generalizing c with
  | nil => rfl
  | cons m rest ih =>
    refine (ih _).trans ?_
    unfold AeronCluster.closeMember
    dsimp only
    split
    · split <;> simp [closePub]
    · rfl

/-! ## Every poll keeps the ingress publication -/

/-- The ingress publication is there in every state whose poll dereferences it. -/
structure Ingressed (state : ClientState) (ingressPub : Option Nat) (members : List MemberIngress) :
    Prop where
  reply : state = .awaitConnectReply → ingressPub.isSome
  connected : state = .connected → ingressPub.isSome
  single : state = .awaitPublicationConnected → members = [] → ingressPub.isSome

/-- The ingress publication serves any state. -/
theorem Ingressed.of_isSome {state : ClientState} {ingressPub : Option Nat} {members : List MemberIngress}
    (h : ingressPub.isSome) : Ingressed state ingressPub members :=
  ⟨fun _ => h, fun _ => h, fun _ _ => h⟩

def IngressReady (c : AeronCluster) : Prop := Ingressed c.state c.ingressPub c.memberByIdMap

theorem IngressReady.createPublications (hstate : c.state = .createPublications) :
    IngressReady (c.createPublications creates env).2 := by
  unfold AeronCluster.createPublications createIngressPublication
  by_cases hm : c.memberByIdMap ≠ []
  · rw [if_pos hm]
    have hrun : TableRun True _ c (c.createMemberPublications creates env.order).2 := createMemberPublications_run _
    have hne := hrun.grows.2.2 hm
    simp only
    split
    · exact ⟨nofun, nofun, fun _ hnil => absurd hnil hne⟩
    · have hstill := (congrArg state hrun.frame).trans hstate
      exact ⟨by simp [hstill], by simp [hstill], by simp [hstill]⟩
  · rw [if_neg hm]
    cases hi : c.ingressPub with
    | some pub => exact Ingressed.of_isSome (by simp [hi])
    | none =>
      by_cases hc : creates c.attempts
      · simp only [hc, if_true]
        exact Ingressed.of_isSome rfl
      · simp only [hc, Bool.false_eq_true, if_false]
        exact ⟨by simp [hstate], by simp [hstate], by simp [hstate]⟩

/-- Sending the connect requests either adopts a member's publication and awaits its reply or stays
in the same state with the same table. -/
theorem connectMembers_cases (ids : List Int) :
    ∀ {c : AeronCluster}, (c.connectMembers env ids).ingressPub.isSome ∨
      ((c.connectMembers env ids).state = c.state ∧ (c.connectMembers env ids).memberByIdMap = c.memberByIdMap) := by
  induction ids with
  | nil => exact fun {c} => Or.inr ⟨rfl, rfl⟩
  | cons memberId rest ih =>
    intro c
    unfold AeronCluster.connectMembers
    cases (c.member? memberId).bind (·.publication) with
    | none => exact ih
    | some pub =>
      simp only
      split
      · unfold sendConnectRequest
        simp only
        split
        · next heq =>
          obtain ⟨-, rfl⟩ := Prod.mk.inj heq
          exact Or.inl rfl
        · next heq =>
          obtain ⟨-, rfl⟩ := Prod.mk.inj heq
          exact ih
        · next heq =>
          obtain ⟨-, rfl⟩ := Prod.mk.inj heq
          exact Or.inl rfl
      · exact ih

theorem IngressReady.awaitPublicationConnected (h : IngressReady c)
    (hstate : c.state = .awaitPublicationConnected) {n : Int} {c' : AeronCluster}
    (hret : c.awaitPublicationConnected opts env = some (n, c')) : IngressReady c' := by
  rcases awaitPublicationConnected_cases hret with
    ⟨time, state, rfl | rfl, rfl⟩ | ⟨hm, rfl⟩ | ⟨pub, _, _, _, hpub, rfl⟩
  · exact h
  · exact ⟨nofun, nofun, nofun⟩
  · rcases connectMembers_cases (c := c) env.order with hin | ⟨hsame, hmem⟩
    · exact Ingressed.of_isSome hin
    · have hstill := hsame.trans hstate
      exact ⟨by simp [hstill], by simp [hstill], fun _ hnil => absurd (hmem.symm.trans hnil) hm⟩
  · exact Ingressed.of_isSome (by simp [hpub])

theorem IngressReady.onSessionEvent (h : IngressReady c) (e : SessionEvent) :
    IngressReady (c.onSessionEvent creates env e) := by
  unfold AeronCluster.onSessionEvent
  split
  next hacc =>
    have hin := h.reply hacc.1
    cases e.code with
    | ok =>
      refine Ingressed.of_isSome ?_
      simp only
      rw [closeNonLeaderPublications_ingressPub]
      exact hin
    | redirect =>
      refine ⟨nofun, nofun, ?_⟩
      intro _ hnil
      -- an empty table means an empty list, and the ingress publication is the one that replied
      have hempty := of_not_not fun hm => (closeNonLeaderPublications_run (q := False) nofun).grows.2.2 hm hnil
      rw [closeNonLeaderPublications_ingressPub, updateMemberEndpoints, foldEndpoints_of_nil _ _ hempty]
      exact hin
    | error | authenticationRejected => exact Ingressed.of_isSome hin
    | closed | other code => exact h
  next =>
    split
    next hacc =>
      have hin := h.connected hacc.1
      cases e.code <;> first | exact h | exact Ingressed.of_isSome hin
    next => exact h

/-- A new leader keeps the ingress publication exactly when its list serves it. -/
theorem IngressReady.onNewLeaderEvent (h : IngressReady c) (e : NewLeaderEvent)
    (hserved : LeaderServed opts creates c (.newLeaderEvent e)) :
    IngressReady (c.onNewLeaderEvent opts creates e) := by
  rcases onNewLeaderEvent_cases opts creates c e with ⟨hel, calls, heq⟩ | ⟨_, _, _, _, _, _, heq⟩
  · rw [heq]
    exact Ingressed.of_isSome ((ingressPub_foldEndpoints _ (elected c e)).trans (hserved hel))
  · rw [heq]
    exact h

theorem IngressReady.onFragment (h : IngressReady c) (m : Egress) (hserved : LeaderServed opts creates c m) :
    IngressReady (c.onFragment opts creates env m) := by
  cases m with
  | sessionMessage clusterSessionId timestamp payload =>
    show IngressReady (c.onSessionMessage clusterSessionId timestamp payload)
    unfold onSessionMessage
    split
    · exact h
    · split <;> exact h
  | sessionEvent e => exact h.onSessionEvent e
  | newLeaderEvent e => exact h.onNewLeaderEvent e hserved
  | ignored => exact h

/-- A poll keeps the ingress publication ready when its messages do. -/
theorem IngressReady.poll {n : Int} {c' : AeronCluster} (h : IngressReady c)
    (hmsgs : IngressReady ((handled env c).foldl (AeronCluster.onFragment opts creates env) c))
    (hret : c.poll opts creates env = some (n, c')) : IngressReady c' := by
  rcases poll_cases hret with ⟨_, rfl | rfl⟩ | ⟨hstate, rfl⟩ | ⟨hstate, haw⟩ |
    ⟨_, ⟨_, _, _, rfl | rfl, rfl⟩ | rfl⟩ | ⟨_, rfl⟩
  · exact h
  · exact ⟨nofun, nofun, nofun⟩
  · exact createPublications hstate
  · exact h.awaitPublicationConnected hstate haw
  · exact ⟨nofun, nofun, nofun⟩
  · exact ⟨nofun, nofun, nofun⟩
  · exact hmsgs
  · exact h

/-- Where the ingress publication is ready, no method dereferences nil. -/
theorem IngressReady.isSome_poll (h : IngressReady c) : (c.poll opts creates env).isSome := by
  unfold AeronCluster.poll
  cases hs : c.state with
  | disconnected =>
    simp only
    split <;> rfl
  | createPublications => rfl
  | awaitPublicationConnected =>
    simp only
    unfold AeronCluster.awaitPublicationConnected
    split
    · rfl
    split
    · rfl
    split
    · rfl
    next hm =>
      exact Option.isSome_map.trans (h.single hs (of_not_not hm))
  | awaitConnectReply => exact Option.isSome_map.trans (h.reply hs)
  | connected => exact Option.isSome_map.trans (h.connected hs)
  | closed => rfl

theorem state_newAeronCluster : (newAeronCluster opts creates).state = .disconnected :=
  congrArg state (foldEndpoints_run (q := True) _).frame

/-- In every run whose new-leader events serve the leader they name, the ingress publication is
there whenever the client awaits its reply or is connected, and no method panics. -/
theorem ingress_never_missing
    (h : ((clientSystem opts creates).guard
      (PollMeets opts creates (LeaderServed opts creates))).Reachable c) :
    (c.state = .awaitConnectReply ∨ c.state = .connected → c.ingressPub ≠ none) ∧
      (∀ env, c.poll opts creates env ≠ none) ∧ (∀ answer, c.offer answer ≠ none) ∧
      (∀ answer, c.sendKeepAlive answer ≠ none) := by
  have hready : IngressReady c := by
    refine h.invariant (I := IngressReady) ?_ ?_
    · intro c hc
      have hstate : c.state = .disconnected := hc ▸ state_newAeronCluster
      exact ⟨by simp [hstate], by simp [hstate], by simp [hstate]⟩
    · intro c env c' hc hstep
      obtain ⟨hmeets, hpoll⟩ := hstep
      obtain ⟨n, hret⟩ := poll_of_pollStep hpoll
      exact hc.poll (Along.keeps (fun c m hc hs => hc.onFragment m hs) _ hc hmeets) hret
  refine ⟨?_, ?_, ?_, ?_⟩
  · rintro (hs | hs)
    · exact Option.isSome_iff_ne_none.mp (hready.reply hs)
    · exact Option.isSome_iff_ne_none.mp (hready.connected hs)
  · intro env
    exact Option.isSome_iff_ne_none.mp hready.isSome_poll
  · intro answer
    unfold AeronCluster.offer
    split
    · exact Option.some_ne_none _
    next hs => simpa [Option.isSome_iff_ne_none] using hready.connected (of_not_not hs)
  · intro answer
    unfold AeronCluster.sendKeepAlive
    split
    · exact Option.some_ne_none _
    next hs => simpa [Option.isSome_iff_ne_none] using hready.connected (of_not_not hs)

/-- The new leader's publication was closed when member 0 was elected; it is asked for again. -/
theorem ingress_never_missing_two_leaders :
    ∃ c, ((clientSystem twoMemberOptions fun _ => true).guard
        (PollMeets twoMemberOptions (fun _ => true) (LeaderServed twoMemberOptions fun _ => true))).Reachable c ∧
      (c.state = .connected ∧ c.leaderMemberId = 1) ∧ c.ingressPub ≠ none ∧
      ∀ env, c.poll twoMemberOptions (fun _ => true) env ≠ none := by
  obtain ⟨c, hreach, hend⟩ := Machine.System.exists_reachable_guard
    (· = newAeronCluster twoMemberOptions fun _ => true) (pollStep twoMemberOptions fun _ => true)
    (PollMeets twoMemberOptions (fun _ => true) (LeaderServed twoMemberOptions fun _ => true)) rfl
    (connecting ++ [leaderOne twoMembers]) (fun c => c.state = .connected ∧ c.leaderMemberId = 1)
    (by decide +kernel)
  have hend := of_decide_eq_true hend
  obtain ⟨hin, hpoll, -, -⟩ := ingress_never_missing hreach
  exact ⟨c, hreach, hend, hin (Or.inr hend.1), hpoll⟩

/-- A list that does not name the new leader leaves a connected client without an ingress
publication, and its next poll panics. -/
theorem ingress_missing :
    ∃ c, (clientSystem twoMemberOptions fun _ => true).Reachable c ∧ c.state = .connected ∧
      c.ingressPub = none ∧ ∀ env, c.poll twoMemberOptions (fun _ => true) env = none := by
  obtain ⟨c, hreach, hend⟩ := Machine.System.exists_reachable
    (· = newAeronCluster twoMemberOptions fun _ => true) (pollStep twoMemberOptions fun _ => true) rfl
    (connecting ++ [leaderOne ['0', '=', 'a']]) (fun c => c.state = .connected ∧ c.ingressPub = none)
    (by decide +kernel)
  obtain ⟨hstate, hnone⟩ := of_decide_eq_true hend
  refine ⟨c, hreach, hstate, hnone, ?_⟩
  intro env
  simp only [AeronCluster.poll, hstate, hnone, Option.map_none]

end AeronGo.Cluster
