import AeronGo.Laws.Cluster.Client

/-!
# No member keeps a closed publication

What a poll does, by the state it starts in (`poll_cases`), and the first of two facts about every
run of the client: no member is left with a publication the client has closed.

It holds of the runs in which every new-leader event that elects gives another address to the
member that holds the ingress publication (`Readdresses`), and the condition is exact
(`sound_onNewLeaderEvent_iff`): `onNewLeaderEvent` closes the ingress publication in place and never
clears the member's own reference, so a list that keeps the old leader's address leaves the closed
publication in the table (`closed_publication_kept`).
-/

namespace AeronGo.Cluster

open AeronCluster

variable {opts : Options} {creates : Nat → Bool} {env : PollEnv}

/-! ## The messages of one poll -/

/-- The messages a poll hands over, as `poll` selects them. -/
def handled (env : PollEnv) (c : AeronCluster) : List Egress :=
  match c.state, c.ingressPub with
  | .awaitConnectReply, some pub =>
    if c.isConnected env pub && env.now < c.awaitTimeoutTime then env.egress.take 1 else []
  | .connected, some pub => if c.isConnected env pub then env.egress.take 10 else []
  | _, _ => []

/-- Each message meets a condition in the state in which it is handled. -/
def Along (opts : Options) (creates : Nat → Bool) (env : PollEnv)
    (P : AeronCluster → Egress → Prop) : AeronCluster → List Egress → Prop
  | _, [] => True
  | c, m :: rest => P c m ∧ Along opts creates env P (c.onFragment opts creates env m) rest

instance Along.decidable (P : AeronCluster → Egress → Prop) [∀ c m, Decidable (P c m)] :
    ∀ (c : AeronCluster) (l : List Egress), Decidable (Along opts creates env P c l)
  | _, [] => .isTrue trivial
  | c, m :: rest =>
    @instDecidableAnd _ _ _ (Along.decidable P (c.onFragment opts creates env m) rest)

/-- Every message of a poll meets the condition. -/
def PollMeets (opts : Options) (creates : Nat → Bool) (P : AeronCluster → Egress → Prop)
    (c : AeronCluster) (env : PollEnv) : Prop :=
  Along opts creates env P c (handled env c)

instance (P : AeronCluster → Egress → Prop) [∀ c m, Decidable (P c m)] (c : AeronCluster)
    (env : PollEnv) : Decidable (PollMeets opts creates P c env) :=
  Along.decidable P c (handled env c)

/-- What each message keeps, a poll's messages keep. -/
theorem Along.keeps {P : AeronCluster → Egress → Prop} {I : AeronCluster → Prop}
    (hstep : ∀ c m, I c → P c m → I (c.onFragment opts creates env m)) (l : List Egress) :
    ∀ {c : AeronCluster}, I c → Along opts creates env P c l →
      I (l.foldl (onFragment opts creates env) c) := by
  induction l with
  | nil => intro c hc _; exact hc
  | cons m rest ih => intro c hc hl; exact ih (hstep c m hc hl.1) hl.2

variable {c c' : AeronCluster}

/-- What a returning poll does, by the state it starts in. -/
theorem poll_cases {n : Int} (h : c.poll opts creates env = some (n, c')) :
    (c.state = .disconnected ∧ (c' = c ∨ c' = { c with state := .createPublications })) ∨
    (c.state = .createPublications ∧ c' = (c.createPublications creates env).2) ∨
    (c.state = .awaitPublicationConnected ∧ c.awaitPublicationConnected opts env = some (n, c')) ∨
    ((c.state = .awaitConnectReply ∨ c.state = .connected) ∧
      ((∃ (details : List Text) (time : Int) (state : ClientState), (state = .disconnected ∨ state = .createPublications) ∧
        c' = { c with calls := c.calls ++ details.map .onDisconnect, nextRetryConnectTime := time, state := state }) ∨
      c' = (handled env c).foldl (onFragment opts creates env) c)) ∨
    (c.state = .closed ∧ c' = c) := by
  unfold poll at h
  cases hs : c.state with
  | disconnected =>
    simp only [hs] at h
    split at h <;> cases h
    · exact Or.inl ⟨rfl, Or.inr rfl⟩
    · exact Or.inl ⟨rfl, Or.inl rfl⟩
  | createPublications =>
    simp only [hs, Option.some.injEq] at h
    exact Or.inr (Or.inl ⟨rfl, by rw [h]⟩)
  | awaitPublicationConnected =>
    simp only [hs] at h
    exact Or.inr (Or.inr (Or.inl ⟨rfl, h⟩))
  | awaitConnectReply =>
    simp only [hs] at h
    obtain ⟨pub, hpub, hval⟩ := Option.map_eq_some_iff.mp h
    refine Or.inr (Or.inr (Or.inr (Or.inl ⟨Or.inl rfl, ?_⟩)))
    split at hval
    next hc =>
      cases hval
      refine Or.inr ?_
      simp only [handled, hs, hpub, hc, if_true]
    next hc =>
      cases hval
      exact Or.inl ⟨[], _, _, Or.inl rfl, by rw [List.map_nil, List.append_nil]⟩
  | connected =>
    simp only [hs] at h
    obtain ⟨pub, hpub, hval⟩ := Option.map_eq_some_iff.mp h
    refine Or.inr (Or.inr (Or.inr (Or.inl ⟨Or.inr rfl, ?_⟩)))
    split at hval
    next hc =>
      cases hval
      refine Or.inr ?_
      simp only [handled, hs, hpub, hc, if_true]
    next hc =>
      cases hval
      exact Or.inl ⟨["ingress publication disconnected".toList], c.nextRetryConnectTime, _, Or.inr rfl, rfl⟩
  | closed =>
    simp only [hs, Option.some.injEq, Prod.mk.injEq] at h
    exact Or.inr (Or.inr (Or.inr (Or.inr ⟨rfl, h.2.symm⟩)))

/-- What a returning `awaitPublicationConnected` does: it waits or gives up, it asks the members, or
it asks over the single ingress publication. -/
theorem awaitPublicationConnected_cases {n : Int}
    (h : c.awaitPublicationConnected opts env = some (n, c')) :
    (∃ time state, (state = c.state ∨ state = .disconnected) ∧
      c' = { c with nextRetryConnectTime := time, state := state }) ∨
    (c.memberByIdMap ≠ [] ∧ c' = c.connectMembers env env.order) ∨
    (∃ pub correlation time state, c.ingressPub = some pub ∧
      c' = { c with correlationId := correlation, awaitTimeoutTime := time, state := state }) := by
  unfold AeronCluster.awaitPublicationConnected sendConnectRequest at h
  split at h
  · cases h
    exact Or.inl ⟨c.nextRetryConnectTime, c.state, Or.inl rfl, rfl⟩
  split at h
  · cases h
    exact Or.inl ⟨_, _, Or.inr rfl, rfl⟩
  split at h
  next hm =>
    cases h
    exact Or.inr (Or.inl ⟨hm, rfl⟩)
  next =>
    obtain ⟨pub, hpub, hval⟩ := Option.map_eq_some_iff.mp h
    refine Or.inr (Or.inr ⟨pub, ?_⟩)
    split at hval
    · simp only at hval
      split at hval
      next heq =>
        obtain ⟨-, rfl⟩ := Prod.mk.inj heq
        cases hval
        exact ⟨_, _, _, hpub, rfl⟩
      next heq =>
        obtain ⟨-, rfl⟩ := Prod.mk.inj heq
        cases hval
        exact ⟨_, c.awaitTimeoutTime, c.state, hpub, rfl⟩
    · cases hval
      exact ⟨c.correlationId, c.awaitTimeoutTime, c.state, hpub, rfl⟩

/-! ## Polls keep the table sound -/

section Sound

variable {exempt : Nat → Prop} {c : AeronCluster}

theorem Sound.createPublications (h : Sound exempt c) :
    Sound exempt (c.createPublications creates env).2 := by
  unfold AeronCluster.createPublications createIngressPublication
  by_cases hm : c.memberByIdMap ≠ []
  · rw [if_pos hm]
    have hkeep : Sound exempt (c.createMemberPublications creates env.order).2 :=
      h.run trivial (createMemberPublications_run env.order)
    simp only
    split
    · exact hkeep
    · exact hkeep
  · rw [if_neg hm]
    cases hi : c.ingressPub with
    | some pub => exact h
    | none =>
      by_cases hc : creates c.attempts
      · simp only [hc, if_true]
        refine ⟨h.ids, h.nextAttempt.opened, h.held, h.usable, h.nextAttempt.unopened, ?_⟩
        intro p hp
        cases hp
        exact Nat.lt_succ_self _
      · simp only [hc, Bool.false_eq_true, if_false]
        exact ⟨h.ids, h.nextAttempt.opened, h.held, h.usable, h.nextAttempt.unopened, hi ▸ h.nextAttempt.ingress⟩

theorem Sound.awaitPublicationConnected (h : Sound exempt c) {n : Int} {c' : AeronCluster}
    (hret : c.awaitPublicationConnected opts env = some (n, c')) : Sound exempt c' := by
  rcases awaitPublicationConnected_cases hret with ⟨_, _, _, _, rfl⟩ | ⟨_, rfl⟩ | ⟨_, _, _, _, _, rfl⟩
  · exact h
  · exact h.connectMembers _
  · exact h

theorem Sound.onSessionEvent (h : Sound exempt c) (e : SessionEvent) :
    Sound exempt (c.onSessionEvent creates env e) := by
  unfold AeronCluster.onSessionEvent
  split
  · cases e.code with
    | ok =>
      exact Sound.closeNonLeaderPublications
        (c := { c with
          leadershipTermId := e.leadershipTermId
          leaderMemberId := e.leaderMemberId
          clusterSessionId := e.clusterSessionId
          sessionMsgHdr := (e.leadershipTermId, e.clusterSessionId)
          keepAlive := (e.leadershipTermId, e.clusterSessionId)
          state := .connected }) h
    | redirect =>
      exact Sound.closeNonLeaderPublications
        (Sound.foldEndpoints (c := { c with leaderMemberId := e.leaderMemberId }) _ h)
    | error | authenticationRejected | closed | other code => exact h
  · split
    · cases e.code <;> exact h
    · exact h

/-- An accepted new-leader event for a client with an endpoint list: the client as it is when the
event's own list is about to be read. -/
def elected (c : AeronCluster) (e : NewLeaderEvent) : AeronCluster :=
  { c with
    leadershipTermId := e.leadershipTermId
    leaderMemberId := e.leaderMemberId
    sessionMsgHdr := (e.leadershipTermId, c.sessionMsgHdr.2)
    keepAlive := (e.leadershipTermId, c.keepAlive.2)
    isClosed := fun p => if c.ingressPub = some p then true else c.isClosed p
    ingressPub := none }

/-- The event is for this client's session, and the client has an endpoint list. -/
def Elects (opts : Options) (c : AeronCluster) (e : NewLeaderEvent) : Prop :=
  (c.state = .connected ∧ e.clusterSessionId = c.clusterSessionId) ∧ opts.ingressEndpoints ≠ []

instance (c : AeronCluster) (e : NewLeaderEvent) : Decidable (Elects opts c e) :=
  inferInstanceAs (Decidable (_ ∧ _))

/-- A new-leader event closes and clears the ingress publication and then reads its list, or it
leaves the table and the ingress publication alone. -/
theorem onNewLeaderEvent_cases (opts : Options) (creates : Nat → Bool) (c : AeronCluster) (e : NewLeaderEvent) :
    (Elects opts c e ∧ ∃ calls, c.onNewLeaderEvent opts creates e =
      { updateMemberEndpoints creates (elected c e) e.ingressEndpoints with calls := calls }) ∨
    (¬ Elects opts c e ∧ ∃ term leader hdr alive calls, c.onNewLeaderEvent opts creates e =
      { c with
        leadershipTermId := term
        leaderMemberId := leader
        sessionMsgHdr := hdr
        keepAlive := alive
        calls := calls }) := by
  unfold AeronCluster.onNewLeaderEvent Elects
  by_cases hacc : c.state = .connected ∧ e.clusterSessionId = c.clusterSessionId
  · rw [if_pos hacc]
    by_cases hopts : opts.ingressEndpoints ≠ []
    · refine Or.inl ⟨⟨hacc, hopts⟩, ?_⟩
      simp only [if_pos hopts]
      refine ⟨_, congrArg (fun d => ({ updateMemberEndpoints creates d e.ingressEndpoints with
        calls := _ } : AeronCluster)) ?_⟩
      unfold elected closePub
      cases c.ingressPub with
      | none => simp
      | some pub => simp [eq_comm]
    · refine Or.inr ⟨fun h => hopts h.2, ?_⟩
      simp only [if_neg hopts]
      exact ⟨_, _, _, _, _, rfl⟩
  · refine Or.inr ⟨fun h => hacc h.1, ?_⟩
    rw [if_neg hacc]
    exact ⟨c.leadershipTermId, c.leaderMemberId, c.sessionMsgHdr, c.keepAlive, c.calls, rfl⟩

/-- Before its list is read, a new leader exempts at most the ingress publication it closes. -/
theorem Sound.elected (h : Sound exempt c) (e : NewLeaderEvent) :
    Sound (fun p => exempt p ∨ c.ingressPub = some p) (elected c e) := by
  refine ⟨h.ids, h.opened, h.held, ?_, ?_, nofun⟩
  · intro m hm p hp hn
    obtain ⟨hexempt, hin⟩ := not_or.mp hn
    exact (if_neg hin).trans (h.usable m hm p hp hexempt)
  · intro p hp
    have hin : c.ingressPub ≠ some p := fun he => Nat.not_lt.mpr hp (h.ingress p he)
    exact (if_neg hin).trans (h.unopened p hp)

theorem Sound.onNewLeaderEvent (h : Sound exempt c) (e : NewLeaderEvent) :
    Sound (fun p => exempt p ∨ c.ingressPub = some p) (c.onNewLeaderEvent opts creates e) := by
  rcases onNewLeaderEvent_cases opts creates c e with ⟨_, calls, heq⟩ | ⟨_, term, leader, hdr, alive, calls, heq⟩
  · rw [heq]
    exact Sound.foldEndpoints _ (h.elected e)
  · rw [heq]
    exact h.mono fun _ => Or.inl

/-- A poll keeps the table sound when its messages do. -/
theorem Sound.poll {n : Int} {c' : AeronCluster} (h : Sound exempt c)
    (hmsgs : Sound exempt ((handled env c).foldl (AeronCluster.onFragment opts creates env) c))
    (hret : c.poll opts creates env = some (n, c')) : Sound exempt c' := by
  rcases poll_cases hret with ⟨_, rfl | rfl⟩ | ⟨_, rfl⟩ | ⟨_, haw⟩ | ⟨_, ⟨_, _, _, _, rfl⟩ | rfl⟩ | ⟨_, rfl⟩
  · exact h
  · exact h
  · exact h.createPublications
  · exact h.awaitPublicationConnected haw
  · exact h
  · exact hmsgs
  · exact h

end Sound

/-! ## No member keeps a closed publication -/

/-- A new-leader event that elects gives another address to the member that holds the ingress
publication, if one does. -/
def Readdresses (opts : Options) (c : AeronCluster) : Egress → Prop
  | .newLeaderEvent e => Elects opts c e → ∀ m ∈ c.memberByIdMap, m.publication ≠ none →
      m.publication = c.ingressPub →
      ∃ entry ∈ endpointEntries e.ingressEndpoints, entry.1 = m.memberId ∧ entry.2 ≠ m.endpoint
  | _ => True

instance (c : AeronCluster) : (m : Egress) → Decidable (Readdresses opts c m)
  | .newLeaderEvent e => inferInstanceAs (Decidable (Elects opts c e → ∀ m ∈ c.memberByIdMap, _ → _ → _))
  | .sessionMessage .. | .sessionEvent .. | .ignored => .isTrue trivial

/-- **The condition is exact.** From a sound table, a new-leader event leaves no member with a
closed publication exactly when its list re-addresses the holder of the ingress publication. -/
theorem sound_onNewLeaderEvent_iff (h : Sound (fun _ => False) c) (e : NewLeaderEvent) :
    Sound (fun _ => False) (c.onNewLeaderEvent opts creates e) ↔
      Readdresses opts c (.newLeaderEvent e) := by
  have hafter : Sound _ (c.onNewLeaderEvent opts creates e) := h.onNewLeaderEvent e
  rcases onNewLeaderEvent_cases opts creates c e with
    ⟨hel, calls, heq⟩ | ⟨hel, term, leader, hdr, alive, calls, heq⟩
  · rw [heq] at hafter ⊢
    constructor
    · intro hs _ m hm hsome hin
      obtain ⟨p, hp⟩ := Option.ne_none_iff_exists'.mp hsome
      have hclosed : (elected c e).isClosed p = true := if_pos (hin.symm.trans hp)
      have hunheld : Unheld p (updateMemberEndpoints creates (elected c e) e.ingressEndpoints) := by
        intro x hx hxp
        have hopen := hs.usable_of_none x hx p hxp
        exact Bool.false_ne_true (hopen.symm.trans ((foldEndpoints_run (q := True) _).grows.2.1 p hclosed))
      exact (unheld_foldEndpoints_iff _ (h.elected e) hm hp).mp hunheld
    · intro hr
      refine hafter.of_unheld ?_
      intro p hp
      have hin : c.ingressPub = some p := hp.resolve_left not_false
      by_cases hheld : Unheld p c
      · have hkept : Unheld p (updateMemberEndpoints creates (elected c e) e.ingressEndpoints) :=
          Unheld.run (c := elected c e) hheld (h.ingress p hin) (foldEndpoints_run (q := True) _)
        exact hkept
      · unfold Unheld at hheld
        push Not at hheld
        obtain ⟨m, hm, hmp⟩ := hheld
        exact (unheld_foldEndpoints_iff _ (h.elected e) hm hmp).mpr
          (hr hel m hm (hmp ▸ Option.some_ne_none p) (hmp.trans hin.symm))
  · rw [heq]
    exact iff_of_true h fun hel' => absurd hel' hel

theorem Sound.onFragment (h : Sound (fun _ => False) c) (m : Egress)
    (hr : Readdresses opts c m) : Sound (fun _ => False) (c.onFragment opts creates env m) := by
  cases m with
  | sessionMessage clusterSessionId timestamp payload =>
    show Sound _ (c.onSessionMessage clusterSessionId timestamp payload)
    unfold onSessionMessage
    split
    · exact h
    · split <;> exact h
  | sessionEvent e => exact h.onSessionEvent e
  | newLeaderEvent e => exact (sound_onNewLeaderEvent_iff h e).mpr hr
  | ignored => exact h

theorem sound_newAeronCluster (exempt : Nat → Prop) : Sound exempt (newAeronCluster opts creates) := by
  refine Sound.foldEndpoints _ ⟨List.nodup_nil, nofun, nofun, nofun, fun _ _ => rfl, nofun⟩

/-- A returning poll, and the order in which it visited the members. -/
theorem poll_of_pollStep (h : pollStep opts creates c env = some c') :
    ∃ n, c.poll opts creates env = some (n, c') := by
  unfold pollStep at h
  split at h
  · obtain ⟨⟨n, d⟩, hret, rfl⟩ := Option.map_eq_some_iff.mp h
    exact ⟨n, hret⟩
  · exact nomatch h

/-- In every run whose new-leader events re-address the holder of the ingress publication, no
member holds a publication the client has closed. -/
theorem member_publications_usable {c : AeronCluster}
    (h : ((clientSystem opts creates).guard (PollMeets opts creates (Readdresses opts))).Reachable c) :
    Usable c := by
  suffices hs : Sound (fun _ => False) c from hs.usable_of_none
  refine h.invariant (I := Sound fun _ => False) ?_ ?_
  · rintro _ rfl
    exact sound_newAeronCluster _
  · intro c env c' hc hstep
    obtain ⟨hmeets, hpoll⟩ := hstep
    obtain ⟨n, hret⟩ := poll_of_pollStep hpoll
    exact hc.poll (Along.keeps (fun c m hc hr => hc.onFragment m hr) _ hc hmeets) hret

/-! ### A run to a change of leader

Two members at addresses `a` and `b`; every publication is granted, connected and taken. -/

def twoMembers : Text := ['0', '=', 'a', ',', '1', '=', 'b']

def twoMemberOptions : Options where
  ingressEndpoints := twoMembers
  ingressChannel := ['u']
  retryBackoff := 2000

/-- A poll that finds everything connected. -/
def calm (now : Int) (egress : List Egress) : PollEnv where
  now := now
  connected := fun _ => true
  order := [0, 1]
  responseChannel := ['r']
  correlation := fun pub => pub
  encodes := true
  offer := fun _ => 0
  egress := egress
  fragments := egress.length

/-- The polls that connect to member 0 as leader of term 1 in session 7. -/
def connecting : List PollEnv :=
  [calm 1 [], calm 2 [], calm 3 [], calm 4 [.sessionEvent ⟨7, 0, 1, 0, .ok, []⟩]]

/-- Member 1 leads from term 2 on, by the given endpoint list. -/
def leaderOne (endpoints : Text) : PollEnv := calm 5 [.newLeaderEvent ⟨2, 7, 1, endpoints⟩]

theorem member_publications_usable_readdressed :
    ∃ c, ((clientSystem twoMemberOptions fun _ => true).guard
        (PollMeets twoMemberOptions (fun _ => true) (Readdresses twoMemberOptions))).Reachable c ∧
      (c.state = .connected ∧ c.leaderMemberId = 1) ∧ Usable c := by
  obtain ⟨c, hreach, hend⟩ := Machine.System.exists_reachable_guard
    (· = newAeronCluster twoMemberOptions fun _ => true)
    (pollStep twoMemberOptions fun _ => true)
    (PollMeets twoMemberOptions (fun _ => true) (Readdresses twoMemberOptions)) rfl
    (connecting ++ [leaderOne ['0', '=', 'c', ',', '1', '=', 'b']])
    (fun c => c.state = .connected ∧ c.leaderMemberId = 1) (by decide +kernel)
  exact ⟨c, hreach, of_decide_eq_true hend, member_publications_usable hreach⟩

/-- When the list keeps the old leader's address, the old leader's entry keeps the publication
that the client has just closed. -/
theorem closed_publication_kept :
    ∃ c, (clientSystem twoMemberOptions fun _ => true).Reachable c ∧ ¬ Usable c := by
  obtain ⟨c, hreach, hend⟩ := Machine.System.exists_reachable
    (· = newAeronCluster twoMemberOptions fun _ => true)
    (pollStep twoMemberOptions fun _ => true) rfl (connecting ++ [leaderOne twoMembers])
    (fun c => ∃ m ∈ c.memberByIdMap, m.publication = some 0 ∧ c.isClosed 0 = true)
    (by decide +kernel)
  obtain ⟨m, hm, hp, hclosed⟩ := of_decide_eq_true hend
  refine ⟨c, hreach, ?_⟩
  intro hu
  exact Bool.false_ne_true ((hu m hm 0 hp).symm.trans hclosed)

end AeronGo.Cluster
