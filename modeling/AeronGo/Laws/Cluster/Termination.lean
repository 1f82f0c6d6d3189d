import AeronGo.Laws.Atomic.Buffer
import AeronGo.Laws.Cluster.SnapshotLoader
import AeronGo.Machine.Run

/-!
# The end of a service

Termination is final in a history of events if its `onTerminate` is followed by one ack and by nothing else (`Final`).
What each handler adds to the history is said once (`onMessage_cases`): it terminates, it is silent, or it calls the
service or acks without terminating. From that follow the parts of a duty cycle, and of one cycle that ends `Final`
exactly what it must not find left to do after its termination (`doWork_final_iff`). Nothing in `DoWork` asks whether
the service is still active. What a cycle does once the service is inactive is left open beyond that.
-/

namespace AeronGo.Cluster.Service

open Machine Atomic Codecs

/-- `OnTerminate` is followed by one ack, and by nothing else. -/
def Final (events : List Event) : Prop :=
  ∀ before after, events = before ++ .onTerminate :: after →
    ∃ logPosition timestamp ackId relevantId serviceId,
      after = [.serviceAck logPosition timestamp ackId relevantId serviceId]

/-- The service has not terminated. -/
structure Live (agent : Agent) : Prop where
  running : Event.onTerminate ∉ agent.events
  active : agent.isServiceActive = true

/-- The service has terminated, and nothing happened after that. -/
structure Ended (agent : Agent) : Prop where
  last : ∃ before logPosition timestamp ackId relevantId serviceId, Event.onTerminate ∉ before ∧
    agent.events = before ++ [.onTerminate, .serviceAck logPosition timestamp ackId relevantId serviceId]
  inactive : agent.isServiceActive = false

variable {agent : Agent} {fragments : List LogFragment}

theorem Live.final (h : Live agent) : Final agent.events := by
  intro before after hsplit
  refine absurd ?_ h.running
  rw [hsplit]
  exact List.mem_append_right before List.mem_cons_self

/-- Where `onTerminate` stands in a history that begins with it at one place only. -/
theorem split_unique {before before' after after' : List Event} (hbefore : Event.onTerminate ∉ before)
    (hafter : Event.onTerminate ∉ after) (h : before ++ .onTerminate :: after = before' ++ .onTerminate :: after') :
    after = after' := by
  rcases List.append_eq_append_iff.mp h with ⟨mid, rfl, hmid⟩ | ⟨mid, rfl, hmid⟩
  · cases mid with
    | nil => exact (List.cons.inj hmid).2
    | cons e mid =>
      obtain ⟨_, rfl⟩ := List.cons.inj hmid
      exact absurd (List.mem_append_right mid List.mem_cons_self) hafter
  · cases mid with
    | nil => exact (List.cons.inj hmid).2.symm
    | cons e mid =>
      obtain ⟨rfl, _⟩ := List.cons.inj hmid
      exact absurd (List.mem_append_right before' List.mem_cons_self) hbefore

theorem Ended.final (h : Ended agent) : Final agent.events := by
  obtain ⟨before, logPosition, timestamp, ackId, relevantId, serviceId, hbefore, hevents⟩ := h.last
  intro before' after' hsplit
  rw [hevents] at hsplit
  exact ⟨logPosition, timestamp, ackId, relevantId, serviceId,
    (split_unique hbefore (by simp) hsplit).symm⟩

/-- After the end, anything more makes the difference. -/
theorem Ended.final_append_iff (h : Ended agent) (more : List Event) :
    Final (agent.events ++ more) ↔ more = [] := by
  constructor
  · intro hfinal
    obtain ⟨before, logPosition, timestamp, ackId, relevantId, serviceId, hbefore, hevents⟩ := h.last
    obtain ⟨_, _, _, _, _, hafter⟩ := hfinal before (.serviceAck logPosition timestamp ackId relevantId serviceId :: more)
      (by rw [hevents, List.append_assoc]; rfl)
    exact (List.cons.inj hafter).2
  · rintro rfl
    rw [List.append_nil]
    exact h.final

/-! ## What a step adds -/

/-- The history grows, without a termination. -/
structure Adds (a b : Agent) (new : List Event) : Prop where
  events : b.events = a.events ++ new
  running : Event.onTerminate ∉ new
  active : b.isServiceActive = a.isServiceActive

/-- The service terminates. -/
structure Terminates (a b : Agent) : Prop where
  events : ∃ logPosition timestamp ackId relevantId serviceId,
    b.events = a.events ++ [.onTerminate, .serviceAck logPosition timestamp ackId relevantId serviceId]
  inactive : b.isServiceActive = false

theorem Adds.refl (a : Agent) : Adds a a [] := ⟨(List.append_nil _).symm, List.not_mem_nil, rfl⟩

variable {a b : Agent} {new : List Event}

theorem Adds.trans {c : Agent} {new' : List Event} (h : Adds a b new) (h' : Adds b c new') :
    Adds a c (new ++ new') where
  events := by rw [h'.events, h.events, List.append_assoc]
  running := by
    rw [List.mem_append, not_or]
    exact ⟨h.running, h'.running⟩
  active := h'.active.trans h.active

/-- Nothing but the history and the flag counts. -/
theorem Adds.same (hevents : b.events = a.events) (hactive : b.isServiceActive = a.isServiceActive) :
    Adds a b [] := ⟨hevents.trans (List.append_nil _).symm, List.not_mem_nil, hactive⟩

/-- The same growth, seen from an agent that differs in other things. -/
theorem Adds.congr {c : Agent} (h : Adds c b new) (hevents : c.events = a.events)
    (hactive : c.isServiceActive = a.isServiceActive) : Adds a b new :=
  ⟨by rw [h.events, hevents], h.running, h.active.trans hactive⟩

theorem Adds.live (h : Adds a b new) (ha : Live a) : Live b where
  running := by
    rw [h.events, List.mem_append, not_or]
    exact ⟨ha.running, h.running⟩
  active := h.active.trans ha.active

theorem Adds.ended (h : Adds a b []) (ha : Ended a) : Ended b where
  last := by
    rw [h.events, List.append_nil]
    exact ha.last
  inactive := h.active.trans ha.inactive

theorem Terminates.ended (h : Terminates a b) (ha : Live a) : Ended b where
  last := by
    obtain ⟨logPosition, timestamp, ackId, relevantId, serviceId, hevents⟩ := h.events
    exact ⟨a.events, logPosition, timestamp, ackId, relevantId, serviceId, ha.running, hevents⟩
  inactive := h.inactive

/-! ## Handlers -/

namespace Agent

variable {o : Options} {env : Env} {a b : Agent}

/-- A message that ends the service. -/
def isTerminating (agent : Agent) : LogMessage → Bool
  | .membershipChange _ _ changeType memberId => memberId = agent.memberId && changeType = .QUIT
  | _ => false

/-- A message on which the service is not called and nothing is acked. -/
def isSilent (agent : Agent) : LogMessage → Bool
  | .sessionClose _ clusterSessionId _ _ => (agent.getClientSession clusterSessionId).isNone
  | .clusterActionRequest _ _ _ action flags => !(action = .SNAPSHOT && agent.shouldSnapshot flags)
  | .membershipChange _ _ changeType memberId => !(memberId = agent.memberId && changeType = .QUIT)
  | .ignored => true
  | _ => false

theorem adds_emit (a : Agent) {event : Event} (h : event ≠ .onTerminate) : Adds a (a.emit event) [event] :=
  ⟨rfl, fun hmem => h (List.mem_singleton.mp hmem).symm, rfl⟩

variable {logPosition timestamp : Int} {f : LogFragment}

theorem serviceAckRequest_ok {relevantId : Int}
    (h : a.serviceAckRequest o env logPosition timestamp relevantId = .ok b) :
    b = { a with nextAckId := i64 (a.nextAckId + 1) }.emit
      (.serviceAck logPosition timestamp a.nextAckId relevantId o.serviceId) := by
  unfold serviceAckRequest at h
  simp only at h
  split at h
  · exact (Except.ok.inj h).symm
  · cases h

theorem adds_serviceAckRequest {relevantId : Int}
    (h : a.serviceAckRequest o env logPosition timestamp relevantId = .ok b) :
    Adds a b [.serviceAck logPosition timestamp a.nextAckId relevantId o.serviceId] := by
  rw [serviceAckRequest_ok h]
  exact ⟨rfl, by simp, rfl⟩

/-- The flag goes down, the service is told, and the cluster gets an ack. -/
theorem terminate_ok (h : a.terminate o env = .ok b) :
    b = { ({ a with isServiceActive := false, nextAckId := i64 (a.nextAckId + 1) }.emit .onTerminate).emit
      (.serviceAck a.logPosition a.clusterTime a.nextAckId null o.serviceId) with terminationPosition := null } := by
  unfold terminate at h
  obtain ⟨c, hack, hb⟩ := ok_of_bind h
  cases hb
  rw [serviceAckRequest_ok hack]
  rfl

theorem terminate_terminates (h : a.terminate o env = .ok b) : Terminates a b := by
  rw [terminate_ok h]
  exact ⟨⟨_, _, _, _, _, List.append_assoc _ _ _⟩, rfl⟩

/-- A session open that does not fail adds a publication and a session with an id that is new, and calls
the service. -/
theorem onSessionOpen_ok {leadershipTermId clusterSessionId responseStreamId : Int}
    {responseChannel encodedPrincipal : List UInt8}
    (h : a.onSessionOpen env leadershipTermId logPosition clusterSessionId timestamp responseStreamId responseChannel
      encodedPrincipal = .ok b) :
    a.getClientSession clusterSessionId = none ∧
    b = ({ a with
      logPosition := logPosition
      clusterTime := timestamp
      publicationAttempts := a.publicationAttempts + 1
      publications := a.publications ++ [a.publicationAttempts] }.putSession
        ⟨clusterSessionId, responseStreamId, responseChannel, encodedPrincipal, a.publicationAttempts⟩).emit
          (.onSessionOpen clusterSessionId timestamp) := by
  unfold onSessionOpen newContainerClientSession at h
  simp only at h
  split at h
  · cases h
  next hfind =>
    cases hadd : env.addPublication a.publicationAttempts with
    | some err =>
      rw [hadd] at h
      cases h
    | none =>
      rw [hadd] at h
      cases h
      exact ⟨hfind, rfl⟩

theorem adds_onServiceAction {flags : Int} {action : ClusterAction}
    (h : a.onServiceAction o env logPosition timestamp action flags = .ok b) :
    ∃ new, Adds a b new ∧ (new = [] ↔ ¬(action = .SNAPSHOT ∧ a.shouldSnapshot flags = true)) := by
  unfold onServiceAction at h
  simp only at h
  split at h
  next hsnapshot =>
    have hdue : action = .SNAPSHOT ∧ a.shouldSnapshot flags = true := hsnapshot
    have hack := adds_serviceAckRequest h
    unfold takeSnapshot at hack
    cases hresult : env.takeSnapshot logPosition with
    | ok recordingId =>
      rw [hresult] at hack
      refine ⟨[.onTakeSnapshot] ++ _, (adds_emit a (by simp)).trans { hack with }, ?_⟩
      simp [hdue]
    | error err =>
      rw [hresult] at hack
      refine ⟨_, { hack with }, ?_⟩
      simp [hdue]
  next hsnapshot =>
    cases h
    have hstays : ¬(action = .SNAPSHOT ∧ a.shouldSnapshot flags = true) := hsnapshot
    exact ⟨[], Adds.same rfl rfl, iff_of_true rfl hstays⟩

/-- **What a message of the log adds to the history**: it terminates the service, or it adds calls and
acks, none if and only if it is silent. -/
theorem onMessage_cases {position : Int} {m : LogMessage} (h : a.onMessage o env position m = .ok b) :
    (a.isTerminating m = true ∧ a.isSilent m = false ∧ Terminates a b) ∨
    (a.isTerminating m = false ∧ ∃ new, Adds a b new ∧ (new = [] ↔ a.isSilent m = true)) := by
  cases m with
  | timerEvent correlationId timestamp | sessionMessage clusterSessionId timestamp payload =>
    cases h
    exact .inr ⟨rfl, _, ⟨rfl, by simp, rfl⟩, by simp [isSilent]⟩
  | sessionOpen leadershipTermId clusterSessionId timestamp responseStreamId responseChannel encodedPrincipal =>
    simp only [onMessage] at h
    split at h
    next hopen =>
      cases h
      rw [(onSessionOpen_ok hopen).2]
      exact .inr ⟨rfl, [.onSessionOpen clusterSessionId timestamp], ⟨rfl, by simp, rfl⟩, by simp [isSilent]⟩
    next => cases h
  | sessionClose leadershipTermId clusterSessionId timestamp closeReason =>
    cases h
    refine .inr ⟨rfl, ?_⟩
    cases hfind : a.getClientSession clusterSessionId with
    | none =>
      refine ⟨[], ?_, by simp [isSilent, hfind]⟩
      have hfind' : { a with logPosition := position, clusterTime := timestamp }.getClientSession clusterSessionId =
        none := hfind
      simp only [onSessionClose, hfind']
      exact Adds.same rfl rfl
    | some session =>
      refine ⟨[.onSessionClose session.id timestamp closeReason], ?_, by simp [isSilent, hfind]⟩
      have hfind' : { a with logPosition := position, clusterTime := timestamp }.getClientSession clusterSessionId =
        some session := hfind
      simp only [onSessionClose, hfind']
      exact ⟨rfl, by simp, rfl⟩
  | clusterActionRequest leadershipTermId logPosition timestamp action flags =>
    obtain ⟨new, hadds, hsilent⟩ := adds_onServiceAction h
    refine .inr ⟨rfl, new, hadds, hsilent.trans ?_⟩
    simp [isSilent, imp_iff_not_or]
  | newLeadershipTerm term =>
    simp only [onMessage, onNewLeadershipTermEvent] at h
    split at h
    · cases h
    · cases h
      exact .inr ⟨rfl, _, ⟨rfl, by simp, rfl⟩, by simp [isSilent]⟩
  | membershipChange logPosition timestamp changeType memberId =>
    simp only [onMessage, onMembershipChange] at h
    split at h
    next hquit =>
      have hdue : (memberId = a.memberId && changeType = .QUIT : Bool) = true := by simpa using hquit
      have hends := terminate_terminates h
      exact .inl ⟨hdue, by simp [isSilent, hquit.1, hquit.2], { hends with }⟩
    next hquit =>
      cases h
      have hstays : (memberId = a.memberId && changeType = .QUIT : Bool) = false := by simpa using hquit
      exact .inr ⟨hstays, [], Adds.same rfl rfl, by
        rw [isSilent, hstays]; simp⟩
  | ignored =>
    cases h
    exact .inr ⟨rfl, [], Adds.refl a, by simp [isSilent]⟩
  | outOfBounds => cases h

/-! ## Fragments of the log -/

variable {decode : List UInt8 → LogMessage}

/-- The message that a fragment completes. -/
def completed (decode : List UInt8 → LogMessage) (builder : Option (List UInt8)) (f : LogFragment) :
    Option LogMessage :=
  if f.flags &&& 0xC0 = 0xC0 then some (decode f.payload)
  else if f.flags &&& 0x80 = 0x80 then none
  else
    match builder with
    | none => none
    | some bytes =>
      if bytes.length = 0 then none
      else if f.flags &&& 0x40 = 0x40 then some (decode (bytes ++ f.payload)) else none

/-- A fragment is its message, if it completes one, apart from the builder. -/
theorem onFragment_cases (h : a.onFragment o env decode f = .ok b) :
    (completed decode a.builder f = none ∧ ∃ builder, b = { a with builder := builder }) ∨
    (∃ m builder builder' c, completed decode a.builder f = some m ∧
      { a with builder := builder }.onMessage o env f.position m = .ok c ∧ b = { c with builder := builder' }) := by
  unfold onFragment at h
  unfold completed
  split at h
  next hwhole =>
    rw [if_pos hwhole]
    exact .inr ⟨_, a.builder, b.builder, b, rfl, h, rfl⟩
  next hwhole =>
    rw [if_neg hwhole]
    split at h
    next hbegin =>
      cases h
      rw [if_pos hbegin]
      exact .inl ⟨rfl, _, rfl⟩
    next hbegin =>
      rw [if_neg hbegin]
      cases hbuilder : a.builder with
      | none =>
        rw [hbuilder] at h
        cases h
        exact .inl ⟨rfl, a.builder, rfl⟩
      | some bytes =>
        rw [hbuilder] at h
        simp only at h ⊢
        split at h
        next hempty =>
          cases h
          rw [if_pos hempty]
          exact .inl ⟨rfl, a.builder, rfl⟩
        next hempty =>
          rw [if_neg hempty]
          split at h
          next hend =>
            rw [if_pos hend]
            obtain ⟨c, hc, hb⟩ := ok_of_bind h
            cases hb
            exact .inr ⟨_, _, _, c, rfl, hc, rfl⟩
          next hend =>
            cases h
            rw [if_neg hend]
            exact .inl ⟨rfl, _, rfl⟩

/-- The fragment completes a message that ends the service. -/
def endsWith (decode : List UInt8 → LogMessage) (agent : Agent) (f : LogFragment) : Bool :=
  (completed decode agent.builder f).any agent.isTerminating

/-- The fragment completes no message that the agent acts on. -/
def passesOver (decode : List UInt8 → LogMessage) (agent : Agent) (f : LogFragment) : Bool :=
  (completed decode agent.builder f).all agent.isSilent

/-- What a fragment adds to the history. -/
theorem onFragment_adds (h : a.onFragment o env decode f = .ok b) :
    (endsWith decode a f = true ∧ passesOver decode a f = false ∧ Terminates a b) ∨
    (endsWith decode a f = false ∧ ∃ new, Adds a b new ∧ (new = [] ↔ passesOver decode a f = true)) := by
  rcases onFragment_cases h with ⟨hnone, builder, rfl⟩ | ⟨m, builder, builder', c, hsome, hmessage, rfl⟩
  · refine .inr ⟨by simp [endsWith, hnone], [], Adds.same rfl rfl, ?_⟩
    simp [passesOver, hnone]
  · have hsilent : { a with builder := builder }.isSilent m = a.isSilent m := by cases m <;> rfl
    have hends : { a with builder := builder }.isTerminating m = a.isTerminating m := by cases m <;> rfl
    rcases onMessage_cases hmessage with ⟨hdue, hloud, hc⟩ | ⟨hdue, new, hc, hnew⟩
    · refine .inl ⟨?_, ?_, { hc with }⟩
      · simp only [endsWith, hsome, Option.any_some, ← hends, hdue]
      · simp only [passesOver, hsome, Option.all_some, ← hsilent, hloud]
    · refine .inr ⟨?_, new, { hc with }, ?_⟩
      · simp only [endsWith, hsome, Option.any_some, ← hends, hdue]
      · simpa only [passesOver, hsome, Option.all_some, ← hsilent] using hnew

/-! ## Polling the log -/

/-- A test of what a computation returns, if it returns. -/
def holdsAfter {α : Type} (r : Except Stop α) (q : α → Bool) : Bool :=
  match r with
  | .ok a => q a
  | .error _ => true

section

variable (o env decode)

/-- No fragment completes a message that the agent acts on. -/
def isSilentPoll : Agent → List LogFragment → Bool
  | _, [] => true
  | agent, f :: rest => passesOver decode agent f &&
      holdsAfter (agent.onFragment o env decode f) fun agent => isSilentPoll agent rest

/-- None of the fragments behind one that ends the service completes a message that the agent acts on. -/
def isQuietPoll : Agent → List LogFragment → Bool
  | _, [] => true
  | agent, f :: rest =>
    holdsAfter (agent.onFragment o env decode f) fun next =>
      if endsWith decode agent f then isSilentPoll o env decode next rest else isQuietPoll next rest

end

theorem onFragments_cons {rest : List LogFragment} (h : a.onFragments o env decode (f :: rest) = .ok b) :
    ∃ c, a.onFragment o env decode f = .ok c ∧ c.onFragments o env decode rest = .ok b := by
  unfold onFragments at h ⊢
  rw [List.foldlM_cons] at h
  exact ok_of_bind h

/-- The history only grows. -/
theorem onFragments_grows (h : a.onFragments o env decode fragments = .ok b) :
    ∃ new, b.events = a.events ++ new := by
  induction fragments generalizing a with
  | nil =>
    cases h
    exact ⟨[], (List.append_nil _).symm⟩
  | cons f rest ih =>
    obtain ⟨c, hc, hb⟩ := onFragments_cons h
    obtain ⟨new, hnew⟩ := ih hb
    rcases onFragment_adds hc with ⟨_, _, hends⟩ | ⟨_, more, hadds, _⟩
    · obtain ⟨_, _, _, _, _, hevents⟩ := hends.events
      exact ⟨_, by rw [hnew, hevents, List.append_assoc]⟩
    · exact ⟨more ++ new, by rw [hnew, hadds.events, List.append_assoc]⟩

/-- The history is final exactly if a test holds, and then the agent is as said. -/
structure FinalIff (good : Agent → Prop) (b : Agent) (test : Bool) : Prop where
  final : Final b.events ↔ test = true
  good : test = true → good b

theorem FinalIff.of_true {good : Agent → Prop} (hfinal : Final b.events) (hgood : good b) : FinalIff good b true :=
  ⟨iff_of_true hfinal rfl, fun _ => hgood⟩

theorem FinalIff.imp {good good' : Agent → Prop} {test : Bool} (h : FinalIff good b test)
    (himp : good b → good' b) : FinalIff good' b test := ⟨h.final, fun htest => himp (h.good htest)⟩

/-- After the end a poll stays final exactly if it is silent. -/
theorem onFragments_of_ended (ha : Ended a)
    (h : a.onFragments o env decode fragments = .ok b) :
    FinalIff Ended b (isSilentPoll o env decode a fragments) := by
  induction fragments generalizing a with
  | nil =>
    cases h
    exact .of_true ha.final ha
  | cons f rest ih =>
    obtain ⟨c, hc, hb⟩ := onFragments_cons h
    obtain ⟨new, hnew⟩ := onFragments_grows hb
    -- a fragment that is acted on leaves something behind the end
    have hloud : ∀ more, c.events = a.events ++ more → more ≠ [] → passesOver decode a f = false →
        FinalIff Ended b (isSilentPoll o env decode a (f :: rest)) := by
      intro more hmore hne hpass
      rw [isSilentPoll, hpass, Bool.false_and]
      refine ⟨iff_of_false ?_ Bool.false_ne_true, nofun⟩
      rw [hnew, hmore, List.append_assoc, ha.final_append_iff]
      exact fun hnil => hne (List.append_eq_nil_iff.mp hnil).1
    rcases onFragment_adds hc with ⟨_, hpass, hends⟩ | ⟨_, more, hadds, hsilent⟩
    · obtain ⟨_, _, _, _, _, hevents⟩ := hends.events
      exact hloud _ hevents (List.cons_ne_nil _ _) hpass
    · by_cases hmore : more = []
      · subst hmore
        have hstep : isSilentPoll o env decode a (f :: rest) = isSilentPoll o env decode c rest := by
          rw [isSilentPoll, hsilent.mp rfl, hc]
          rfl
        rw [hstep]
        exact ih (hadds.ended ha) hb
      · exact hloud more hadds.events hmore (Bool.eq_false_iff.mpr (mt hsilent.mpr hmore))

/-- A poll that finds the service running stays final exactly if it is quiet. -/
theorem onFragments_of_live (ha : Live a)
    (h : a.onFragments o env decode fragments = .ok b) :
    FinalIff (fun b => Live b ∨ Ended b) b (isQuietPoll o env decode a fragments) := by
  induction fragments generalizing a with
  | nil =>
    cases h
    exact .of_true ha.final (.inl ha)
  | cons f rest ih =>
    obtain ⟨c, hc, hb⟩ := onFragments_cons h
    rcases onFragment_adds hc with ⟨hends, _, hterminates⟩ | ⟨hends, more, hadds, _⟩
    · have hstep : isQuietPoll o env decode a (f :: rest) = isSilentPoll o env decode c rest := by
        rw [isQuietPoll, hc, holdsAfter, if_pos hends]
      rw [hstep]
      exact (onFragments_of_ended (hterminates.ended ha) hb).imp .inr
    · have hstep : isQuietPoll o env decode a (f :: rest) = isQuietPoll o env decode c rest := by
        rw [isQuietPoll, hc, holdsAfter, if_neg (by rw [hends]; exact Bool.false_ne_true)]
      rw [hstep]
      exact ih (hadds.live ha) hb

/-- A role change is a call. -/
theorem adds_setRole (a : Agent) (newRole : Role) :
    ∃ new, Adds a (a.setRole newRole) new ∧ (new = [] ↔ newRole = a.role) := by
  unfold setRole
  split
  next hrole => exact ⟨[.onRoleChange newRole], ⟨rfl, by simp, rfl⟩, by simpa using hrole⟩
  next hrole => exact ⟨[], Adds.refl a, by simpa using hrole⟩

/-- The end of a log changes the position, the image and the role. -/
theorem closeLog_eq (env : Env) (a : Agent) : ∃ position, a.closeLog env =
    { a with logPosition := position, image := none }.setRole .follower := by
  unfold closeLog
  simp only
  split
  · exact ⟨_, rfl⟩
  · exact ⟨a.logPosition, rfl⟩

theorem adds_closeLog (env : Env) (a : Agent) :
    ∃ new, Adds a (a.closeLog env) new ∧ (new = [] ↔ a.role = .follower) := by
  obtain ⟨position, hclose⟩ := closeLog_eq env a
  rw [hclose]
  obtain ⟨new, hadds, hrole⟩ := adds_setRole { a with logPosition := position, image := none } .follower
  exact ⟨new, hadds.congr rfl rfl, hrole.trans eq_comm⟩

/-- The log part of a cycle: there is no log, the log has come to its end, or its fragments are handled. -/
theorem pollLog_cases (h : a.pollLog o env decode = .ok b) :
    (a.image = none ∧ b = a) ∨ ∃ sub, a.image = some sub ∧
      (env.log.fragments = [] ∧ a.isLogDone env = true ∧ b = a.closeLog env ∨
        (decide (env.log.fragments.length = 0) && a.isLogDone env) = false ∧
          a.onFragments o env decode env.log.fragments = .ok b) := by
  unfold pollLog at h
  cases himage : a.image with
  | none =>
    rw [himage] at h
    cases h
    exact .inl ⟨rfl, rfl⟩
  | some sub =>
    rw [himage] at h
    obtain ⟨c, hc, hb⟩ := ok_of_bind h
    refine .inr ⟨sub, rfl, ?_⟩
    split at hb
    next hclose =>
      cases hb
      have hfragments := List.length_eq_zero_iff.mp hclose.1
      rw [hfragments] at hc
      cases hc
      exact .inl ⟨hfragments, hclose.2, rfl⟩
    next hclose =>
      cases hb
      refine .inr ⟨?_, hc⟩
      by_cases hnil : env.log.fragments = []
      · rw [hnil] at hc
        cases hc
        simpa [hnil] using hclose
      · simp [hnil]

section

variable (o env decode)

/-- The log part of a cycle that has terminated does nothing. -/
def isSilentLog (agent : Agent) : Bool :=
  match agent.image with
  | none => true
  | some _ => isSilentPoll o env decode agent env.log.fragments &&
      !(env.log.fragments.length = 0 && agent.isLogDone env && agent.role ≠ .follower)

/-- If the log part of a cycle terminates, it does nothing after that. -/
def isQuietLog (agent : Agent) : Bool :=
  match agent.image with
  | none => true
  | some _ => isQuietPoll o env decode agent env.log.fragments

end

theorem pollLog_of_ended (ha : Ended a) (h : a.pollLog o env decode = .ok b) :
    FinalIff Ended b (isSilentLog o env decode a) := by
  unfold isSilentLog
  rcases pollLog_cases h with ⟨himage, rfl⟩ | ⟨sub, himage, ⟨hnil, hdone, rfl⟩ | ⟨hopen, hb⟩⟩
  · rw [himage]
    exact .of_true ha.final ha
  · obtain ⟨new, hadds, hrole⟩ := adds_closeLog env a
    simp only [himage, hnil, hdone, isSilentPoll, List.length_nil, decide_true, Bool.true_and]
    refine ⟨?_, fun hfollower => ?_⟩
    · rw [hadds.events, ha.final_append_iff, hrole]
      simp
    · have hfollows : a.role = .follower := by simpa using hfollower
      obtain rfl := hrole.mpr hfollows
      exact hadds.ended ha
  · simp only [himage, hopen, Bool.false_and, Bool.not_false, Bool.and_true]
    exact onFragments_of_ended ha hb

/-- The history only grows in the log part of a cycle. -/
theorem pollLog_grows (h : a.pollLog o env decode = .ok b) : ∃ new, b.events = a.events ++ new := by
  rcases pollLog_cases h with ⟨_, rfl⟩ | ⟨_, _, ⟨_, _, rfl⟩ | ⟨_, hb⟩⟩
  · exact ⟨[], (List.append_nil _).symm⟩
  · obtain ⟨new, hadds, _⟩ := adds_closeLog env a
    exact ⟨new, hadds.events⟩
  · exact onFragments_grows hb

theorem pollLog_of_live (ha : Live a) (h : a.pollLog o env decode = .ok b) :
    FinalIff (fun b => Live b ∨ Ended b) b (isQuietLog o env decode a) := by
  unfold isQuietLog
  rcases pollLog_cases h with ⟨himage, rfl⟩ | ⟨sub, himage, ⟨hnil, _, rfl⟩ | ⟨_, hb⟩⟩
  · rw [himage]
    exact .of_true ha.final (.inl ha)
  · obtain ⟨new, hadds, _⟩ := adds_closeLog env a
    have hlive := hadds.live ha
    rw [himage, hnil]
    exact .of_true hlive.final (.inl hlive)
  · rw [himage]
    exact onFragments_of_live ha hb

/-! ## The service adapter -/

/-- The control stream sets what a cycle looks at, and nothing else. -/
theorem pollControl_ok (h : a.pollControl env = .ok b) :
    ∃ maxLogPosition activeLogEvent terminationPosition requestedAckPosition, b = { a with
      maxLogPosition := maxLogPosition
      activeLogEvent := activeLogEvent
      terminationPosition := terminationPosition
      requestedAckPosition := requestedAckPosition } := by
  unfold pollControl at h
  generalize env.control = messages at h
  induction messages generalizing a with
  | nil =>
    cases h
    exact ⟨_, _, _, _, rfl⟩
  | cons m rest ih =>
    rw [List.foldlM_cons] at h
    obtain ⟨c, hc, hb⟩ := ok_of_bind h
    obtain ⟨_, _, _, _, rfl⟩ := ih hb
    cases m <;> cases hc <;> exact ⟨_, _, _, _, rfl⟩

theorem adds_pollControl (h : a.pollControl env = .ok b) : Adds a b [] := by
  obtain ⟨_, _, _, _, rfl⟩ := pollControl_ok h
  exact Adds.same rfl rfl

theorem adds_joinAnnounced (h : a.joinAnnounced o env = .ok b) : ∃ new, Adds a b new := by
  unfold joinAnnounced at h
  split at h
  next event _ _ =>
    unfold joinActiveLog at h
    simp only at h
    cases hjoin : env.joinLog with
    | error err =>
      rw [hjoin] at h
      cases h
      exact ⟨[], Adds.same rfl rfl⟩
    | ok imagePosition =>
      rw [hjoin] at h
      simp only at h
      split at h
      · cases h
        exact ⟨[], Adds.same rfl rfl⟩
      · split at h
        · cases h
          exact ⟨[], Adds.same rfl rfl⟩
        · obtain ⟨c, hc, hb⟩ := ok_of_bind h
          cases hb
          obtain ⟨new, hrole, _⟩ := adds_setRole { c with memberId := event.memberId } event.role
          have hack := adds_serviceAckRequest hc
          exact ⟨_, (hack.trans (hrole.congr rfl rfl)).congr rfl rfl⟩
  next =>
    cases h
    exact ⟨[], Adds.refl a⟩

theorem adds_ackIfDue (h : a.ackIfDue o env = .ok b) : ∃ new, Adds a b new ∧ (new = [] ↔ a.isAckDue = false) := by
  unfold ackIfDue at h
  split at h
  next hdue =>
    obtain ⟨c, hc, hb⟩ := ok_of_bind h
    cases hb
    have hack := adds_serviceAckRequest hc
    exact ⟨_, { hack with }, by simp [hdue]⟩
  next hdue =>
    cases h
    exact ⟨[], Adds.refl a, by simpa using hdue⟩

/-! ## A cycle -/

section

variable (o decode)

/-- If the cycle terminates the service, it finds nothing to do after that: no ack is due, and no message
of the log and no end of the log is acted on. -/
def isQuietCycle (agent : Agent) (env : Env) : Bool :=
  holdsAfter (agent.checkForClockTick env) fun (isTick, agent) =>
    if isTick then
      holdsAfter (agent.pollControl env) fun agent =>
        holdsAfter (agent.joinAnnounced o env) fun agent =>
          if agent.isTerminationDue then
            holdsAfter (agent.terminate o env) fun agent => !agent.isAckDue && isSilentLog o env decode agent
          else holdsAfter (agent.ackIfDue o env) (isQuietLog o env decode)
    else isQuietLog o env decode agent

end

/-- The part of a cycle behind the control stream, where the service terminates. -/
theorem rest_of_terminated (ha : Live a) {c d : Agent} (hdue : a.isTerminationDue = true)
    (hterminate : a.terminateIfDue o env = .ok c) (hack : c.ackIfDue o env = .ok d)
    (hlog : d.pollLog o env decode = .ok b) :
    a.terminate o env = .ok c ∧ FinalIff Ended b (!c.isAckDue && isSilentLog o env decode c) := by
  rw [terminateIfDue, if_pos hdue] at hterminate
  have hended := (terminate_terminates hterminate).ended ha
  obtain ⟨new, hadds, hnew⟩ := adds_ackIfDue hack
  refine ⟨hterminate, ?_⟩
  cases hackDue : c.isAckDue with
  | false =>
    obtain rfl := hnew.mpr hackDue
    obtain rfl : c = d := by
      rw [ackIfDue, if_neg (by rw [hackDue]; exact Bool.false_ne_true)] at hack
      exact Except.ok.inj hack
    exact pollLog_of_ended hended hlog
  | true =>
    obtain ⟨more, hmore⟩ := pollLog_grows hlog
    refine ⟨iff_of_false ?_ (by simp), by simp⟩
    rw [hmore, hadds.events, List.append_assoc, hended.final_append_iff]
    intro hnil
    have := hnew.mp (List.append_eq_nil_iff.mp hnil).1
    rw [hackDue] at this
    cases this

/-- A cycle is a look at the clock, the service adapter if it ticked, and the log. -/
theorem doWork_cases (h : a.doWork o env decode = .ok b) :
    ∃ isTick c d, a.checkForClockTick env = .ok (isTick, c) ∧
      (if isTick then c.pollServiceAdapter o env else .ok c) = .ok d ∧ d.pollLog o env decode = .ok b := by
  unfold doWork at h
  obtain ⟨⟨isTick, c⟩, htick, h⟩ := ok_of_bind h
  cases isTick with
  | false => exact ⟨false, c, c, htick, rfl, h⟩
  | true =>
    obtain ⟨d, hservice, hlog⟩ := ok_of_bind h
    exact ⟨true, c, d, htick, hservice, hlog⟩

/-- A look at the clock notes the time. -/
theorem checkForClockTick_ok {isTick : Bool} (h : a.checkForClockTick env = .ok (isTick, b)) :
    ∃ time, b = { a with cachedTimeMs := time } := by
  unfold checkForClockTick at h
  split at h
  · split at h
    · cases h
      exact ⟨_, rfl⟩
    · cases h
  · cases h
    exact ⟨a.cachedTimeMs, rfl⟩

/-- **What makes the termination of a cycle final.** A cycle that begins with the service running leaves a
final history exactly if it finds nothing to do after a termination. -/
theorem doWork_final_iff (ha : Live a) (h : a.doWork o env decode = .ok b) :
    FinalIff (fun b => Live b ∨ Ended b) b (isQuietCycle o decode a env) := by
  obtain ⟨isTick, a₁, a₅, htick, hservice, hlog⟩ := doWork_cases h
  have ha₁ : Live a₁ := by
    obtain ⟨_, rfl⟩ := checkForClockTick_ok htick
    exact ⟨ha.running, ha.active⟩
  unfold isQuietCycle
  rw [htick]
  simp only [holdsAfter]
  cases isTick with
  | false =>
    cases hservice
    exact pollLog_of_live ha₁ hlog
  | true =>
    obtain ⟨a₂, hcontrol, hservice⟩ := ok_of_bind hservice
    obtain ⟨a₃, hjoin, hservice⟩ := ok_of_bind hservice
    obtain ⟨a₄, hterminate, hack⟩ := ok_of_bind hservice
    have ha₂ : Live a₂ := (adds_pollControl hcontrol).live ha₁
    obtain ⟨_, hjoined⟩ := adds_joinAnnounced hjoin
    have ha₃ : Live a₃ := hjoined.live ha₂
    simp only [hcontrol, hjoin, if_true]
    cases hdue : a₃.isTerminationDue with
    | true =>
      obtain ⟨hends, hfinal⟩ := rest_of_terminated ha₃ hdue hterminate hack hlog
      simp only [hends, if_true]
      exact hfinal.imp .inr
    | false =>
      obtain rfl : a₃ = a₄ := by
        rw [terminateIfDue, if_neg (by rw [hdue]; exact Bool.false_ne_true)] at hterminate
        exact Except.ok.inj hterminate
      obtain ⟨_, hadds, _⟩ := adds_ackIfDue hack
      simp only [hack, Bool.false_eq_true, if_false]
      exact pollLog_of_live (hadds.live ha₃) hlog

end Agent

/-! ## Runs -/

/-- One duty cycle, if it returns. -/
def cycle (o : Options) (decode : List UInt8 → LogMessage) (agent : Agent) (env : Env) : Option Agent :=
  (agent.doWork o env decode).toOption

/-- The agent has recovered. -/
def Recovered (o : Options) (agent : Agent) : Prop := ∃ env r, recoverState o env Agent.initial r = some agent

/-- An agent after its recovery, and its duty cycles. -/
def agentSystem (o : Options) (decode : List UInt8 → LogMessage) : System Agent Env :=
  .ofStep (Recovered o) (cycle o decode)

theorem doWork_of_cycle {o : Options} {decode : List UInt8 → LogMessage} {after : Agent} {env : Env}
    (h : cycle o decode agent env = some after) : agent.doWork o env decode = .ok after := by
  unfold cycle at h
  cases hwork : agent.doWork o env decode with
  | error e =>
    rw [hwork] at h
    cases h
  | ok b =>
    rw [hwork] at h
    rw [Option.some.inj h]

/-- A cycle is run only while the service is active, and finds nothing to do after a termination. -/
def Quiet (o : Options) (decode : List UInt8 → LogMessage) (agent : Agent) (env : Env) : Prop :=
  agent.isServiceActive = true ∧ Agent.isQuietCycle o decode agent env = true

instance (o : Options) (decode : List UInt8 → LogMessage) (agent : Agent) (env : Env) :
    Decidable (Quiet o decode agent env) := inferInstanceAs (Decidable (_ ∧ _))

/-- Loading sessions is not in the history. -/
theorem load_events (addPublication : Nat → Option String) (l : Loading) (fragments : List SnapshotFragment) :
    (Loading.load addPublication l fragments).1.2.events = l.2.events ∧
      (Loading.load addPublication l fragments).1.2.isServiceActive = l.2.isServiceActive := by
  induction fragments generalizing l with
  | nil => exact ⟨rfl, rfl⟩
  | cons f rest ih =>
    rw [Loading.load]
    split
    · exact ⟨rfl, rfl⟩
    · have hstep : (l.onFragment addPublication f).2.events = l.2.events ∧
          (l.onFragment addPublication f).2.isServiceActive = l.2.isServiceActive := by
        rw [Loading.onFragment_eq]
        cases messageOf f.payload with
        | session session =>
          simp only [Loading.onMessage, Loading.onSession, Agent.newContainerClientSession]
          cases addPublication l.2.publicationAttempts <;> exact ⟨rfl, rfl⟩
        | _ => exact ⟨rfl, rfl⟩
      obtain ⟨hevents, hactive⟩ := ih (l.onFragment addPublication f)
      exact ⟨hevents.trans hstep.1, hactive.trans hstep.2⟩

/-- A recovered agent is running. -/
theorem Recovered.live {o : Options} (h : Recovered o agent) : Live agent := by
  obtain ⟨env, r, h⟩ := h
  obtain ⟨started, hstart, hack⟩ := recoverState_cases h
  refine (Agent.adds_serviceAckRequest hack).live ?_
  rcases startService_cases hstart with ⟨_, rfl⟩ | ⟨_, timeUnit, rfl⟩
  · exact ⟨by simp [Agent.emit, Agent.recovering, Agent.initial], rfl⟩
  · obtain ⟨hevents, hactive⟩ := load_events env.addPublication
      (SnapshotLoader.fresh, Agent.initial.recovering r) r.fragments
    refine ⟨?_, hactive⟩
    simp only [Agent.emit, hevents]
    simp [Agent.recovering, Agent.initial]

/-- **Termination is final** in every run whose cycles are run while the service is active and find
nothing to do after a termination: `OnTerminate` is called at most once, one ack goes with it, and
nothing comes after. -/
theorem termination_final (o : Options) (decode : List UInt8 → LogMessage) {agent : Agent}
    (h : ((agentSystem o decode).guard (Quiet o decode)).Reachable agent) : Final agent.events := by
  have hmode : Live agent ∨ Ended agent := by
    refine System.Reachable.invariant (I := fun s => Live s ∨ Ended s) ?_ ?_ h
    · intro s hs
      exact .inl hs.live
    · rintro s env t hs ⟨⟨hactive, hquiet⟩, hcycle⟩
      have hlive : Live s := by
        rcases hs with hs | hs
        · exact hs
        · rw [hs.inactive] at hactive
          cases hactive
      exact (Agent.doWork_final_iff hlive (doWork_of_cycle hcycle)).2 hquiet
  rcases hmode with hlive | hended
  · exact hlive.final
  · exact hended.final

/-! ## Two terminations -/

/-- A cycle with control messages and log fragments, in which everything asked for succeeds. -/
def workEnv (nowMs : Int) (control : List ServiceMessage) (fragments : List LogFragment) : Env where
  nowMs := nowMs
  isCounterAllocated := true
  control := control
  joinLog := .ok 0
  log := ⟨fragments, 0, false, false⟩
  addPublication := fun _ => none
  takeSnapshot := fun _ => .ok 0
  takesAck := fun _ => true

/-- An agent that starts without a snapshot. -/
def startedAgent : Agent :=
  ((Agent.initial.recovering ⟨-1, 0, 0, .ok 1, .ok 0, none, [], 5⟩).emit (.onStart false)).emit (.serviceAck 0 0 0 5 3)

/-- The ack id is taken. -/
def recoveredAgent : Agent := { startedAgent with nextAckId := 1 }

theorem recoveredAgent_recovered : Recovered ⟨0, 3⟩ recoveredAgent :=
  ⟨workEnv 0 [] [], ⟨-1, 0, 0, .ok 1, .ok 0, none, [], 5⟩, by decide +kernel⟩

/-- The one byte of a message tells what it is: a quit of member 9, or a message of session 4. -/
def decodeByte (bytes : List UInt8) : LogMessage :=
  if bytes = [1] then .membershipChange 64 7 .QUIT 9 else .sessionMessage 4 7 bytes

/-- The log is joined as member 9. -/
def joinNine : ServiceMessage := .joinLog ⟨0, 1000, 9, 1, 1, true, false, .leader, []⟩

theorem termination_final_quit :
    ∃ agent, ((agentSystem ⟨0, 3⟩ decodeByte).guard (Quiet ⟨0, 3⟩ decodeByte)).Reachable agent ∧
      Event.onTerminate ∈ agent.events ∧ Final agent.events := by
  obtain ⟨agent, hreach, hterminated⟩ := System.exists_reachable_guard (Recovered ⟨0, 3⟩) (cycle ⟨0, 3⟩ decodeByte)
    (Quiet ⟨0, 3⟩ decodeByte) recoveredAgent_recovered
    [workEnv 1 [joinNine] [⟨0xC0, [2], 32⟩], workEnv 2 [] [⟨0xC0, [3], 64⟩, ⟨0xC0, [1], 96⟩]]
    (fun agent => Event.onTerminate ∈ agent.events) (by decide +kernel)
  exact ⟨agent, hreach, of_decide_eq_true hterminated, termination_final ⟨0, 3⟩ decodeByte hreach⟩

/-- A service that is terminated with an ack request pending acks twice; one that quits in the middle of a
poll is handed the message behind; and one whose cycles go on is terminated again. -/
theorem termination_not_final :
    (∃ agent, (agentSystem ⟨0, 3⟩ decodeByte).Reachable agent ∧ ¬Final agent.events ∧
      agent.events = recoveredAgent.events ++ .onTerminate ::
        [.serviceAck 0 0 1 (-1) 3, .serviceAck 0 0 2 (-1) 3]) ∧
    (∃ agent, (agentSystem ⟨0, 3⟩ decodeByte).Reachable agent ∧ ¬Final agent.events ∧
      agent.events = (recoveredAgent.events ++ [.serviceAck 0 0 1 (-1) 3, .onRoleChange .leader]) ++ .onTerminate ::
        [.serviceAck 64 7 2 (-1) 3, .onSessionMessage none 7 [2]]) ∧
    (∃ agent, (agentSystem ⟨0, 3⟩ decodeByte).Reachable agent ∧ ¬Final agent.events ∧
      agent.events = recoveredAgent.events ++ .onTerminate ::
        [.serviceAck 0 0 1 (-1) 3, .onTerminate, .serviceAck 0 0 2 (-1) 3]) := by
  have hrun : ∀ (envs : List Env) (before after : List Event), after.length ≠ 1 →
      (System.exec (cycle ⟨0, 3⟩ decodeByte) recoveredAgent envs).any
        (fun agent => agent.events = before ++ .onTerminate :: after) = true →
      ∃ agent, (agentSystem ⟨0, 3⟩ decodeByte).Reachable agent ∧ ¬Final agent.events ∧
        agent.events = before ++ .onTerminate :: after := by
    intro envs before after hlength hexec
    obtain ⟨agent, hreach, hevents⟩ := System.exists_reachable (Recovered ⟨0, 3⟩) (cycle ⟨0, 3⟩ decodeByte)
      recoveredAgent_recovered envs _ hexec
    refine ⟨agent, hreach, fun hfinal => ?_, of_decide_eq_true hevents⟩
    obtain ⟨_, _, _, _, _, rfl⟩ := hfinal before after (of_decide_eq_true hevents)
    exact hlength rfl
  exact ⟨hrun [workEnv 1 [.serviceTerminationPosition 0, .requestServiceAck 0] []] _ _ (by decide) (by decide +kernel),
    hrun [workEnv 1 [joinNine] [⟨0xC0, [1], 32⟩, ⟨0xC0, [2], 64⟩]] _ _ (by decide) (by decide +kernel),
    hrun [workEnv 1 [.serviceTerminationPosition 0] [], workEnv 2 [.serviceTerminationPosition 0] []] _ _ (by decide)
      (by decide +kernel)⟩

end AeronGo.Cluster.Service
