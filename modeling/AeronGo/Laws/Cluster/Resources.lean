import AeronGo.Laws.Cluster.Termination
import Mathlib.Data.List.Perm.Basic

/-!
# Publications and subscriptions of the agent

An open publication that no session holds, or an open log subscription that the log adapter does not hold, is lost:
nothing in the agent closes it any more. What a step loses is said once per handler (`Loses`), together with the test
that says when it loses nothing (`Keeps`). A loss is never made good, so after a whole run the agent holds exactly
what it opened if and only if no step lost anything (`resources_held_iff`). The agent's own `Close` is left out.
-/

namespace AeronGo.Cluster.Service

open Machine Atomic Codecs

/-- How often a publication is open without a session that holds it. -/
def unheldPublication (agent : Agent) (n : Nat) : Int :=
  agent.publications.count n - (agent.sessions.map (·.response)).count n

/-- How often a log subscription is open without the log adapter holding it. -/
def unheldSubscription (agent : Agent) (n : Nat) : Int :=
  agent.logSubscriptions.count n - agent.image.toList.count n

/-- A step loses publications and subscriptions. -/
structure Loses (a b : Agent) (publications subscriptions : List Nat) : Prop where
  publications : ∀ n, unheldPublication b n = unheldPublication a n + publications.count n
  subscriptions : ∀ n, unheldSubscription b n = unheldSubscription a n + subscriptions.count n

/-- A step loses nothing exactly if a test holds. -/
def Keeps (a b : Agent) (kept : Bool) : Prop :=
  ∃ publications subscriptions, Loses a b publications subscriptions ∧
    (publications = [] ∧ subscriptions = [] ↔ kept = true)

/-- The agent has open exactly the publications of its sessions and the subscription of its log. -/
def HoldsExactly (agent : Agent) : Prop :=
  agent.publications.Perm (agent.sessions.map (·.response)) ∧ agent.logSubscriptions = agent.image.toList

instance (agent : Agent) : Decidable (HoldsExactly agent) := inferInstanceAs (Decidable (_ ∧ _))

variable {a b c : Agent} {kept : Bool}

/-- A step that leaves all that is open and held loses nothing. -/
theorem Keeps.of_nothing (h : (b.publications, b.sessions, b.logSubscriptions, b.image) =
    (a.publications, a.sessions, a.logSubscriptions, a.image)) : Keeps a b true := by
  simp only [Prod.mk.injEq] at h
  obtain ⟨hpublications, hsessions, hsubscriptions, himage⟩ := h
  refine ⟨[], [], ⟨fun n => ?_, fun n => ?_⟩, by simp⟩
  · rw [unheldPublication, hpublications, hsessions]
    simp [unheldPublication]
  · rw [unheldSubscription, hsubscriptions, himage]
    simp [unheldSubscription]

theorem Keeps.refl (a : Agent) : Keeps a a true := .of_nothing rfl

theorem Keeps.trans {kept' : Bool} (h : Keeps a b kept) (h' : Keeps b c kept') :
    Keeps a c (kept && kept') := by
  obtain ⟨p, s, hloses, hkept⟩ := h
  obtain ⟨p', s', hloses', hkept'⟩ := h'
  refine ⟨p ++ p', s ++ s', ⟨fun n => ?_, fun n => ?_⟩, ?_⟩
  · rw [hloses'.publications, hloses.publications, List.count_append]
    omega
  · rw [hloses'.subscriptions, hloses.subscriptions, List.count_append]
    omega
  · rw [Bool.and_eq_true, ← hkept, ← hkept', List.append_eq_nil_iff, List.append_eq_nil_iff]
    exact and_and_and_comm

/-- What follows a change of other things. -/
theorem Keeps.before (h : Keeps a b true) (h' : Keeps b c kept) : Keeps a c kept := by
  simpa using h.trans h'

theorem Keeps.behind (h : Keeps a b kept) (h' : Keeps b c true) : Keeps a c kept := by
  simpa using h.trans h'

/-- Where a step starts from an agent that holds exactly what it opened, the test decides. -/
theorem Keeps.holds_iff (h : Keeps a b kept) (hpublications : ∀ n, unheldPublication a n = 0)
    (hsubscriptions : ∀ n, unheldSubscription a n = 0) : HoldsExactly b ↔ kept = true := by
  obtain ⟨p, s, hloses, hkept⟩ := h
  have hnil : ∀ l : List Nat, (∀ n, l.count n = 0) ↔ l = [] := fun l =>
    ⟨fun h => List.eq_nil_iff_forall_not_mem.mpr fun n => List.count_eq_zero.mp (h n), fun h n => by rw [h]; rfl⟩
  have hperm : b.publications.Perm (b.sessions.map (·.response)) ↔ p = [] := by
    rw [List.perm_iff_count, ← hnil p]
    refine forall_congr' fun n => ?_
    have := hloses.publications n
    rw [hpublications, unheldPublication] at this
    omega
  have htail : b.logSubscriptions = b.image.toList ↔ s = [] := by
    have hunique : b.logSubscriptions = b.image.toList ↔ b.logSubscriptions.Perm b.image.toList := by
      cases b.image with
      | none => simp
      | some sub => simp
    rw [hunique, List.perm_iff_count, ← hnil s]
    refine forall_congr' fun n => ?_
    have := hloses.subscriptions n
    rw [hsubscriptions, unheldSubscription] at this
    omega
  rw [← hkept, HoldsExactly, hperm, htail]

/-! ## Sessions -/

/-- The sessions with an id and the others. -/
theorem count_sessions (sessions : List ContainerClientSession) (id : Int) (n : Nat) :
    (sessions.map (·.response)).count n = ((sessions.filter (·.id ≠ id)).map (·.response)).count n +
      ((sessions.filter (·.id = id)).map (·.response)).count n := by
  have hsplit := (List.filter_append_perm (fun s : ContainerClientSession => decide (s.id ≠ id)) sessions).map (·.response)
  rw [← hsplit.count_eq n, List.map_append, List.count_append]
  simp

namespace Agent

variable {o : Options} {env : Env} {a b : Agent}

theorem filter_eq_nil_iff_getClientSession (a : Agent) (id : Int) :
    (a.sessions.filter (·.id = id)).map (·.response) = [] ↔ (a.getClientSession id).isNone = true := by
  rw [List.map_eq_nil_iff, List.filter_eq_nil_iff, Option.isNone_iff_eq_none, getClientSession, List.find?_eq_none]

/-- A session takes its publication with it, and drops the publications of those that had its id. -/
theorem keeps_putSession (a : Agent) (session : ContainerClientSession) :
    Keeps a ({ a with publications := a.publications ++ [session.response] }.putSession session)
      (a.getClientSession session.id).isNone := by
  refine ⟨(a.sessions.filter (·.id = session.id)).map (·.response), [], ⟨fun n => ?_, fun n => ?_⟩, ?_⟩
  · have := count_sessions a.sessions session.id n
    simp only [unheldPublication, putSession, List.map_append, List.count_append, List.map_cons, List.map_nil]
    omega
  · simp [unheldSubscription, putSession]
  · rw [← filter_eq_nil_iff_getClientSession]
    simp

theorem keeps_serviceAckRequest {logPosition timestamp relevantId : Int}
    (h : a.serviceAckRequest o env logPosition timestamp relevantId = .ok b) : Keeps a b true := by
  rw [serviceAckRequest_ok h]
  exact .of_nothing rfl

theorem keeps_terminate (h : a.terminate o env = .ok b) : Keeps a b true := by
  rw [terminate_ok h]
  exact .of_nothing rfl

theorem keeps_onSessionOpen {leadershipTermId logPosition clusterSessionId timestamp responseStreamId : Int}
    {responseChannel encodedPrincipal : List UInt8}
    (h : a.onSessionOpen env leadershipTermId logPosition clusterSessionId timestamp responseStreamId responseChannel
      encodedPrincipal = .ok b) : Keeps a b true := by
  obtain ⟨hnew, rfl⟩ := onSessionOpen_ok h
  have hput := keeps_putSession a
    ⟨clusterSessionId, responseStreamId, responseChannel, encodedPrincipal, a.publicationAttempts⟩
  rw [hnew] at hput
  exact hput.behind (.of_nothing rfl)

/-- A session that is closed is forgotten with its publication. -/
theorem keeps_onSessionClose (a : Agent) (logPosition clusterSessionId timestamp closeReason : Int) :
    Keeps a (a.onSessionClose logPosition clusterSessionId timestamp closeReason)
      (a.getClientSession clusterSessionId).isNone := by
  unfold onSessionClose
  simp only
  have hfind : { a with logPosition := logPosition, clusterTime := timestamp }.getClientSession clusterSessionId =
    a.getClientSession clusterSessionId := rfl
  rw [hfind]
  cases hget : a.getClientSession clusterSessionId with
  | none => exact .of_nothing rfl
  | some session =>
    refine ⟨(a.sessions.filter (·.id = clusterSessionId)).map (·.response), [], ⟨fun n => ?_, fun n => ?_⟩, ?_⟩
    · have := count_sessions a.sessions clusterSessionId n
      simp only [unheldPublication, emit]
      omega
    · simp [unheldSubscription, emit]
    · rw [filter_eq_nil_iff_getClientSession, hget]
      simp

/-! ## The log -/

/-- The message closes no session of the agent. -/
def keepsSessions (agent : Agent) : LogMessage → Bool
  | .sessionClose _ clusterSessionId _ _ => (agent.getClientSession clusterSessionId).isNone
  | _ => true

theorem keeps_onMessage {position : Int} {m : LogMessage} (h : a.onMessage o env position m = .ok b) :
    Keeps a b (a.keepsSessions m) := by
  cases m with
  | timerEvent correlationId timestamp | sessionMessage clusterSessionId timestamp payload =>
    cases h
    exact .of_nothing rfl
  | sessionOpen leadershipTermId clusterSessionId timestamp responseStreamId responseChannel encodedPrincipal =>
    simp only [onMessage] at h
    split at h
    next hopen =>
      cases h
      exact keeps_onSessionOpen hopen
    next => cases h
  | sessionClose leadershipTermId clusterSessionId timestamp closeReason =>
    cases h
    exact keeps_onSessionClose a position clusterSessionId timestamp closeReason
  | clusterActionRequest leadershipTermId logPosition timestamp action flags =>
    simp only [onMessage, onServiceAction] at h
    split at h
    · have hsnapshot : Keeps a ({ a with logPosition := logPosition, clusterTime := timestamp }.takeSnapshot env
          logPosition).1 true := by
        unfold takeSnapshot
        cases env.takeSnapshot logPosition <;> exact .of_nothing rfl
      exact hsnapshot.before (keeps_serviceAckRequest h)
    · cases h
      exact .of_nothing rfl
  | newLeadershipTerm term =>
    simp only [onMessage, onNewLeadershipTermEvent] at h
    split at h
    · cases h
    · cases h
      exact .of_nothing rfl
  | membershipChange logPosition timestamp changeType memberId =>
    simp only [onMessage, onMembershipChange] at h
    have hposition : Keeps a { a with logPosition := logPosition, clusterTime := timestamp } true :=
      .of_nothing rfl
    split at h
    · exact hposition.before (keeps_terminate h)
    · cases h
      exact hposition
  | ignored =>
    cases h
    exact Keeps.refl a
  | outOfBounds => cases h

variable {decode : List UInt8 → LogMessage}

theorem keeps_onFragment {f : LogFragment} (h : a.onFragment o env decode f = .ok b) :
    Keeps a b ((completed decode a.builder f).all a.keepsSessions) := by
  rcases onFragment_cases h with ⟨hnone, builder, rfl⟩ | ⟨m, builder, builder', c, hsome, hmessage, rfl⟩
  · rw [hnone]
    exact .of_nothing rfl
  · have hsame : { a with builder := builder }.keepsSessions m = a.keepsSessions m := by cases m <;> rfl
    rw [hsome, Option.all_some, ← hsame]
    have hbuilder : Keeps a { a with builder := builder } true := .of_nothing rfl
    exact (hbuilder.before (keeps_onMessage hmessage)).behind (.of_nothing rfl)

section

variable (o env decode)

/-- No fragment completes a message that closes a session of the agent. -/
def keepsAllSessions : Agent → List LogFragment → Bool
  | _, [] => true
  | agent, f :: rest => (completed decode agent.builder f).all agent.keepsSessions &&
      holdsAfter (agent.onFragment o env decode f) fun agent => keepsAllSessions agent rest

/-- The log part of a cycle closes no session and does not come to the end of the log. -/
def keepsLog (agent : Agent) : Bool :=
  match agent.image with
  | none => true
  | some _ => keepsAllSessions o env decode agent env.log.fragments &&
      !(env.log.fragments.length = 0 && agent.isLogDone env)

/-- A log that is subscribed to passes the checks of its position. -/
def passesChecks (agent : Agent) (event : ActiveLogEvent) : Bool :=
  match env.joinLog with
  | .error _ => true
  | .ok imagePosition => imagePosition = agent.logPosition && event.logPosition = agent.logPosition

/-- A log that was announced passes the checks when it is joined. -/
def keepsJoin (agent : Agent) : Bool :=
  match agent.activeLogEvent, agent.image with
  | some event, none => passesChecks env agent event
  | _, _ => true

end

theorem keeps_onFragments {fragments : List LogFragment} (h : a.onFragments o env decode fragments = .ok b) :
    Keeps a b (keepsAllSessions o env decode a fragments) := by
  induction fragments generalizing a with
  | nil =>
    cases h
    exact Keeps.refl _
  | cons f rest ih =>
    obtain ⟨c, hc, hb⟩ := onFragments_cons h
    rw [keepsAllSessions, hc]
    exact (keeps_onFragment hc).trans (ih hb)

theorem keeps_setRole (a : Agent) (newRole : Role) : Keeps a (a.setRole newRole) true := by
  unfold setRole
  split <;> exact .of_nothing rfl

/-- The end of a log: the image goes and its subscription stays open. -/
theorem keeps_closeLog {sub : Nat} (himage : a.image = some sub) : Keeps a (a.closeLog env) false := by
  obtain ⟨position, hclose⟩ := closeLog_eq env a
  rw [hclose]
  refine Keeps.behind ?_ (keeps_setRole _ _)
  refine ⟨[], [sub], ⟨fun n => ?_, fun n => ?_⟩, by simp⟩
  · simp [unheldPublication]
  · simp [unheldSubscription, himage]

theorem keeps_pollLog (h : a.pollLog o env decode = .ok b) : Keeps a b (keepsLog o env decode a) := by
  unfold keepsLog
  rcases pollLog_cases h with ⟨himage, rfl⟩ | ⟨sub, himage, ⟨hnil, hdone, rfl⟩ | ⟨hopen, hb⟩⟩
  · rw [himage]
    exact Keeps.refl _
  · simp only [himage, hnil, hdone, keepsAllSessions, List.length_nil, decide_true, Bool.and_self, Bool.not_true]
    exact keeps_closeLog himage
  · simp only [himage, hopen, Bool.not_false, Bool.and_true]
    exact keeps_onFragments hb

/-! ## The service adapter -/

theorem keeps_pollControl (h : a.pollControl env = .ok b) : Keeps a b true := by
  obtain ⟨_, _, _, _, rfl⟩ := pollControl_ok h
  exact .of_nothing rfl

/-- A log that is subscribed to and then not joined leaves its subscription open. -/
theorem keeps_joinActiveLog {event : ActiveLogEvent} (himage : a.image = none)
    (h : a.joinActiveLog o env event = .ok b) : Keeps a b (passesChecks env a event) := by
  unfold joinActiveLog at h
  unfold passesChecks
  simp only at h
  cases hjoin : env.joinLog with
  | error err =>
    rw [hjoin] at h
    cases h
    exact .of_nothing rfl
  | ok imagePosition =>
    rw [hjoin] at h
    simp only at h ⊢
    have hlost : Keeps a { a with
        subscriptionAttempts := a.subscriptionAttempts + 1
        logSubscriptions := a.logSubscriptions ++ [a.subscriptionAttempts] } false := by
      refine ⟨[], [a.subscriptionAttempts], ⟨fun n => ?_, fun n => ?_⟩, by simp⟩
      · simp [unheldPublication]
      · simp only [unheldSubscription, List.count_append]
        omega
    split at h
    next hposition =>
      cases h
      have hfalse : decide (imagePosition = a.logPosition) = false := decide_eq_false hposition
      rw [hfalse, Bool.false_and]
      exact hlost
    next hposition =>
      have htrue : decide (imagePosition = a.logPosition) = true := decide_eq_true (not_not.mp hposition)
      rw [htrue, Bool.true_and]
      split at h
      next hevent =>
        cases h
        have hfalse : decide (event.logPosition = a.logPosition) = false := decide_eq_false hevent
        rw [hfalse]
        exact hlost
      next hevent =>
        have htrue : decide (event.logPosition = a.logPosition) = true := decide_eq_true (not_not.mp hevent)
        rw [htrue]
        obtain ⟨c, hc, hb⟩ := ok_of_bind h
        cases hb
        refine Keeps.behind ?_ (keeps_setRole { c with memberId := event.memberId } event.role)
        refine Keeps.behind (Keeps.before ?_ (keeps_serviceAckRequest hc)) (.of_nothing rfl)
        -- the subscription is held by the log adapter
        refine ⟨[], [], ⟨fun n => ?_, fun n => ?_⟩, by simp⟩
        · simp [unheldPublication]
        · simp only [unheldSubscription, himage, List.count_append, Option.toList]
          simp

theorem keeps_joinAnnounced (h : a.joinAnnounced o env = .ok b) : Keeps a b (keepsJoin env a) := by
  cases hevent : a.activeLogEvent with
  | none =>
    simp only [joinAnnounced, hevent] at h
    cases h
    simp only [keepsJoin, hevent]
    exact Keeps.refl a
  | some event =>
    cases himage : a.image with
    | some image =>
      simp only [joinAnnounced, hevent, himage] at h
      cases h
      simp only [keepsJoin, hevent, himage]
      exact Keeps.refl a
    | none =>
      have hforget : Keeps a { a with activeLogEvent := none } true := .of_nothing rfl
      have hjoin : a.joinAnnounced o env = joinActiveLog o env { a with activeLogEvent := none } event := by
        simp only [joinAnnounced, hevent, himage]
      have hchecks : keepsJoin env a = passesChecks env a event := by
        simp only [keepsJoin, hevent, himage]
      rw [hjoin] at h
      rw [hchecks]
      exact hforget.before (keeps_joinActiveLog himage h)

theorem keeps_ackIfDue (h : a.ackIfDue o env = .ok b) : Keeps a b true := by
  unfold ackIfDue at h
  split at h
  · obtain ⟨c, hc, hb⟩ := ok_of_bind h
    cases hb
    exact (keeps_serviceAckRequest hc).behind (.of_nothing rfl)
  · cases h
    exact Keeps.refl a

theorem keeps_terminateIfDue (h : a.terminateIfDue o env = .ok b) : Keeps a b true := by
  unfold terminateIfDue at h
  split at h
  · exact keeps_terminate h
  · cases h
    exact Keeps.refl a

/-! ## A cycle -/

section

variable (o decode)

/-- The cycle joins no log whose position does not fit, closes no session and does not come to the end of
a log. -/
def keepsCycle (agent : Agent) (env : Env) : Bool :=
  holdsAfter (agent.checkForClockTick env) fun (isTick, agent) =>
    (!isTick || holdsAfter (agent.pollControl env) (keepsJoin env)) &&
      holdsAfter (if isTick then agent.pollServiceAdapter o env else .ok agent) (keepsLog o env decode)

end

theorem keeps_checkForClockTick {isTick : Bool} (h : a.checkForClockTick env = .ok (isTick, b)) : Keeps a b true := by
  obtain ⟨_, rfl⟩ := checkForClockTick_ok h
  exact .of_nothing rfl

theorem keeps_pollServiceAdapter (h : a.pollServiceAdapter o env = .ok b) :
    Keeps a b (holdsAfter (a.pollControl env) (keepsJoin env)) := by
  obtain ⟨a₁, hcontrol, h⟩ := ok_of_bind h
  obtain ⟨a₂, hjoin, h⟩ := ok_of_bind h
  obtain ⟨a₃, hterminate, hack⟩ := ok_of_bind h
  rw [hcontrol, holdsAfter]
  refine ((keeps_pollControl hcontrol).before (keeps_joinAnnounced hjoin)).behind ?_
  exact (keeps_terminateIfDue hterminate).before (keeps_ackIfDue hack)

theorem keeps_doWork (h : a.doWork o env decode = .ok b) : Keeps a b (keepsCycle o decode a env) := by
  obtain ⟨isTick, c, d, htick, hservice, hlog⟩ := doWork_cases h
  unfold keepsCycle
  rw [htick]
  simp only [holdsAfter, hservice]
  refine (keeps_checkForClockTick htick).before (Keeps.trans ?_ (keeps_pollLog hlog))
  cases isTick with
  | false =>
    cases hservice
    exact Keeps.refl c
  | true => exact keeps_pollServiceAdapter hservice

end Agent

/-! ## Recovery -/

section Recovery

variable (addPublication : Nat → Option String)

/-- A session of a snapshot has an id that no session before it had. -/
def isFreshSession (l : Loading) : SnapshotMessage → Bool
  | .session s => (addPublication l.2.publicationAttempts).isSome ||
      (l.2.getClientSession s.clusterSessionId).isNone
  | _ => true

/-- All sessions that are loaded have different ids. -/
def keepsLoaded : Loading → List SnapshotFragment → Bool
  | _, [] => true
  | l, f :: rest => l.1.isDone ||
      (isFreshSession addPublication l (messageOf f.payload) && keepsLoaded (l.onFragment addPublication f) rest)

variable {addPublication}

theorem keeps_onSnapshotMessage (l : Loading) (position : Int) (m : SnapshotMessage) :
    Keeps l.2 (l.onMessage addPublication position m).2 (isFreshSession addPublication l m) := by
  cases m with
  | session s =>
    simp only [Loading.onMessage, Loading.onSession, Agent.newContainerClientSession, isFreshSession]
    cases addPublication l.2.publicationAttempts with
    | some err => exact .of_nothing rfl
    | none =>
      have hput := Agent.keeps_putSession l.2
        ⟨s.clusterSessionId, s.responseStreamId, s.responseChannel, s.encodedPrincipal, l.2.publicationAttempts⟩
      exact hput.behind (.of_nothing rfl)
  | marker _ | undecodable _ | skipped => exact .of_nothing rfl

theorem keeps_load (l : Loading) (fragments : List SnapshotFragment) :
    Keeps l.2 (l.load addPublication fragments).1.2 (keepsLoaded addPublication l fragments) := by
  induction fragments generalizing l with
  | nil => exact Keeps.refl _
  | cons f rest ih =>
    rw [Loading.load, keepsLoaded]
    cases hdone : l.1.isDone with
    | true => exact Keeps.refl _
    | false =>
      rw [Bool.false_or, if_neg Bool.false_ne_true]
      refine Keeps.trans ?_ (ih (l.onFragment addPublication f))
      rw [Loading.onFragment_eq]
      exact keeps_onSnapshotMessage l f.position (messageOf f.payload)

/-- The snapshot of a recovery, if there is one, has no two sessions with one id. -/
def keepsRecovery (env : Env) (r : Recovery) : Bool :=
  r.leadershipTermId = -1 ||
    keepsLoaded env.addPublication (SnapshotLoader.fresh, Agent.initial.recovering r) r.fragments

theorem keeps_recoverState {o : Options} {env : Env} {r : Recovery} {agent : Agent}
    (h : recoverState o env Agent.initial r = some agent) : Keeps Agent.initial agent (keepsRecovery env r) := by
  obtain ⟨started, hstart, hack⟩ := recoverState_cases h
  refine Keeps.behind ?_ (Agent.keeps_serviceAckRequest hack)
  unfold keepsRecovery
  rcases startService_cases hstart with ⟨hnone, rfl⟩ | ⟨hsnapshot, timeUnit, rfl⟩
  · rw [decide_eq_true hnone, Bool.true_or]
    exact .of_nothing rfl
  · rw [decide_eq_false hsnapshot, Bool.false_or]
    have hcounter : Keeps Agent.initial (Agent.initial.recovering r) true := .of_nothing rfl
    refine (hcounter.before (keeps_load (SnapshotLoader.fresh, Agent.initial.recovering r) r.fragments)).behind ?_
    exact .of_nothing rfl

end Recovery

/-! ## Runs -/

section Runs

variable (o : Options) (decode : List UInt8 → LogMessage)

/-- No cycle of a run loses anything. -/
def keepsRun : Agent → List Env → Bool
  | _, [] => true
  | agent, env :: rest => Agent.keepsCycle o decode agent env &&
      (cycle o decode agent env).all fun agent => keepsRun agent rest

variable {o decode}

theorem keeps_exec {a b : Agent} {envs : List Env} (h : System.exec (cycle o decode) a envs = some b) :
    Keeps a b (keepsRun o decode a envs) := by
  induction envs generalizing a with
  | nil =>
    cases h
    exact Keeps.refl _
  | cons env rest ih =>
    obtain ⟨c, hcycle, hrest⟩ := Option.bind_eq_some_iff.mp h
    rw [keepsRun, hcycle]
    exact (Agent.keeps_doWork (doWork_of_cycle hcycle)).trans (ih hrest)

/-- **The agent holds exactly what it opened** after a recovery and any number of duty cycles, if and only
if nothing was lost on the way: no two sessions of the snapshot have one id, no session of the agent is
closed by the log, every log that is subscribed to passes the checks of its position, and no log ends. -/
theorem resources_held_iff {env : Env} {r : Recovery} {start agent : Agent} {envs : List Env}
    (hrecover : recoverState o env Agent.initial r = some start)
    (hrun : System.exec (cycle o decode) start envs = some agent) :
    HoldsExactly agent ↔ keepsRecovery env r = true ∧ keepsRun o decode start envs = true := by
  have hkeeps := (keeps_recoverState hrecover).trans (keeps_exec hrun)
  have hnothing : (∀ n, unheldPublication Agent.initial n = 0) ∧ ∀ n, unheldSubscription Agent.initial n = 0 :=
    ⟨fun _ => rfl, fun _ => rfl⟩
  rw [hkeeps.holds_iff hnothing.1 hnothing.2, Bool.and_eq_true]

end Runs

/-- The one byte of a message tells what it is: session 4 opens or closes. -/
def decodeSession (bytes : List UInt8) : LogMessage :=
  if bytes = [1] then .sessionOpen 0 4 7 1 [] [] else if bytes = [2] then .sessionClose 0 4 8 0 else .ignored

/-- Session 4 in a snapshot. -/
def sessionFragment (position : Int) : SnapshotFragment :=
  ⟨(clientSessionPacket true ⟨4, 1, [], []⟩).toOption.getD [], position⟩

/-- A computed agent with a decidable property. -/
theorem exists_agent {r : Option Agent} {P : Agent → Prop} [DecidablePred P] (h : r.any (fun agent => P agent) = true) :
    ∃ agent, r = some agent ∧ P agent := by
  obtain ⟨agent, hr, hp⟩ := (Option.any_eq_true _ _).mp h
  exact ⟨agent, hr, of_decide_eq_true hp⟩

theorem resources_held_iff_joined :
    ∃ agent, System.exec (cycle ⟨0, 3⟩ decodeSession) recoveredAgent
        [workEnv 1 [joinNine] [⟨0xC0, [1], 32⟩], workEnv 2 [] [⟨0xC0, [3], 64⟩]] = some agent ∧
      agent.publications = [0] ∧ agent.logSubscriptions = [0] ∧ HoldsExactly agent := by
  obtain ⟨agent, hexec, hpublications, hsubscriptions⟩ : ∃ agent,
      System.exec (cycle ⟨0, 3⟩ decodeSession) recoveredAgent
        [workEnv 1 [joinNine] [⟨0xC0, [1], 32⟩], workEnv 2 [] [⟨0xC0, [3], 64⟩]] = some agent ∧
      agent.publications = [0] ∧ agent.logSubscriptions = [0] := exists_agent (by decide +kernel)
  have hrecover : recoverState ⟨0, 3⟩ (workEnv 0 [] []) Agent.initial ⟨-1, 0, 0, .ok 1, .ok 0, none, [], 5⟩ =
      some recoveredAgent := by decide +kernel
  exact ⟨agent, hexec, hpublications, hsubscriptions, (resources_held_iff hrecover hexec).mpr (by decide +kernel)⟩

/-- The publication of a session that is closed stays open; so does the subscription of a log that has
ended, and that of a log whose position does not fit. Of two sessions of a snapshot with one id, the
publication of the first is lost. -/
theorem resources_leak :
    (∃ agent, System.exec (cycle ⟨0, 3⟩ decodeSession) recoveredAgent
        [workEnv 1 [joinNine] [⟨0xC0, [1], 32⟩, ⟨0xC0, [2], 64⟩]] = some agent ∧ ¬HoldsExactly agent ∧
      agent.publications = [0] ∧ agent.sessions = []) ∧
    (∃ agent, System.exec (cycle ⟨0, 3⟩ decodeSession) recoveredAgent
        [workEnv 1 [joinNine] [], { workEnv 2 [] [] with log := ⟨[], 0, true, false⟩ }] = some agent ∧
      ¬HoldsExactly agent ∧ agent.logSubscriptions = [0] ∧ agent.image = none) ∧
    (∃ agent, System.exec (cycle ⟨0, 3⟩ decodeSession) recoveredAgent
        [{ workEnv 1 [joinNine] [] with joinLog := .ok 64 }] = some agent ∧
      ¬HoldsExactly agent ∧ agent.logSubscriptions = [0] ∧ agent.image = none) ∧
    (∃ agent, recoverState ⟨0, 3⟩ (workEnv 0 [] []) Agent.initial ⟨1, 0, 0, .ok 1, .ok 0, none,
        [markerFragment 2 .BEGIN 96, sessionFragment 160, sessionFragment 224, markerFragment 2 .END 320], 5⟩ =
        some agent ∧
      ¬HoldsExactly agent ∧ agent.publications = [0, 1] ∧ agent.sessions.map (·.response) = [1]) :=
  ⟨exists_agent (by decide +kernel), exists_agent (by decide +kernel), exists_agent (by decide +kernel),
    exists_agent (by decide +kernel)⟩

end AeronGo.Cluster.Service
