import AeronGo.Laws.Archive.Merging

/-!
# Which responses a replay merge acts on

`pollForResponse` looks for an error in `ErrorResponse`, which `onFragment` does not set, and compares the
session for that error only. So every response with the awaited correlation id is taken as the answer,
whatever its session and code. A call of `DoWork` does what is asked of it if and only if the response that
it polls, when it has the awaited id, is of the archive's session and has the code `OK`.
-/

namespace AeronGo.Archive.ReplayMerge

open Machine Atomic Driver

variable {o : MergeOptions} {env : Env}

/-- The merge awaits a response. -/
def isAwaiting (s : ReplayMerge) : Bool := isAsking s.state && s.activeCorrelationId ≠ nullValue

/-- The response that a call polls. -/
def polledResponse (s : ReplayMerge) (env : Env) : Option ControlResponse :=
  if s.isAwaiting then (s.received env).control.polled else none

/-- A response with the awaited correlation id is the archive's, and not an error. -/
def Trusted (o : MergeOptions) (s : ReplayMerge) (env : Env) : Prop :=
  ∀ response, s.polledResponse env = some response → response.correlationId = s.activeCorrelationId →
    response.controlSessionId = o.sessionId ∧ response.code = .OK

/-- The merge with nothing left to poll. -/
def silenced (s : ReplayMerge) : ReplayMerge := { s with control := { s.control with pending := [] } }

/-- What a call does with responses. -/
structure Faithful (o : MergeOptions) (s : ReplayMerge) (env : Env) (t : ReplayMerge) : Prop where
  /-- Positions and sessions are only set from an own successful response to the outstanding request. -/
  takes : (t.uses = s.uses ∧ t.nextTargetPosition = s.nextTargetPosition ∧ t.replaySessionId = s.replaySessionId) ∨
    ∃ response, t.uses = s.uses ++ [⟨response, s.activeCorrelationId⟩] ∧
      response.controlSessionId = o.sessionId ∧ response.correlationId = s.activeCorrelationId ∧
      response.code = .OK ∧
      (t.nextTargetPosition = s.nextTargetPosition ∨ t.nextTargetPosition = response.relevantId) ∧
      (t.replaySessionId = s.replaySessionId ∨ t.replaySessionId = response.relevantId)
  /-- An own error to the outstanding request fails the merge. -/
  fails : ∀ response, s.polledResponse env = some response → response.controlSessionId = o.sessionId →
    response.code = .ERROR → response.correlationId = s.activeCorrelationId → t.state = .failed
  /-- With another session's response the merge is, its control apart, as with none. -/
  ignores : ∀ response, s.polledResponse env = some response → response.controlSessionId ≠ o.sessionId →
    ∃ w, s.silenced.doWork o { env with arrived := [] } = .ok w ∧ t = { w.merge with control := t.control }

variable {response : ControlResponse} {s t : ReplayMerge} {w : Worked}

/-- An answer is taken. -/
theorem Answered.uses (h : Answered o env s response t) :
    t.uses = s.uses ∧
      (t.nextTargetPosition = s.nextTargetPosition ∨ t.nextTargetPosition = response.relevantId) ∧
      (t.replaySessionId = s.replaySessionId ∨ t.replaySessionId = response.relevantId) := by
  cases h with
  | unknown _ hidle | unknownAsked _ _ hidle | target _ hidle =>
    cases hidle
    exact ⟨rfl, .inr rfl, .inl rfl⟩
  | started _ hidle =>
    cases hidle
    exact ⟨rfl, .inl rfl, .inr rfl⟩
  | joins _ =>
    rcases join_cases (s.positioned response.relevantId) with h | ⟨_, _, h⟩ | ⟨_, _, _, h⟩ <;> rw [h]
    · exact ⟨rfl, .inr rfl, .inl rfl⟩
    · exact ⟨rfl, .inr rfl, .inl rfl⟩
    · obtain ⟨_, _, hstop⟩ := @stopReplay_if env True _
        ((s.positioned response.relevantId).removeReplayDestination o env)
      rw [if_pos trivial] at hstop
      rw [hstop]
      exact ⟨rfl, .inr rfl, .inl rfl⟩

theorem Answered.isAsking (h : Answered o env s response t) :
    ReplayMerge.isAsking s.state := by
  cases h with
  | unknown hasking _ | unknownAsked request hasking _ => exact hasking
  | target hstate _ | started hstate _ | joins hstate => rw [hstate]; rfl

theorem isDone_of_isAwaiting (h : s.isAwaiting) : s.isDone = false := by
  have hasking := (Bool.and_eq_true_iff.mp h).1
  simp only [isAsking, Bool.or_eq_true, decide_eq_true_eq] at hasking
  rcases hasking with (hstate | hstate) | hstate <;> simp [isDone, hstate]

/-- What no response has changed. -/
def Untaken (s t : ReplayMerge) : Prop :=
  t.uses = s.uses ∧ t.nextTargetPosition = s.nextTargetPosition ∧ t.replaySessionId = s.replaySessionId

theorem Untaken.settle {v : Worked} (h : Untaken s v.merge) :
    Untaken s (settle o env v).merge := by
  rcases settle_cases v with hsettle | hsettle <;> rw [hsettle] <;> exact h

/-- A merge that awaits nothing takes nothing. -/
theorem Effect.untaken (hnot : s.isAwaiting = false) (h : Effect o env s t) : Untaken s t := by
  cases h with
  | idle hidle | resolves _ _ hidle | catchesUp _ hidle | asks _ _ _ hidle =>
    cases hidle
    exact ⟨rfl, rfl, rfl⟩
  | answers response hactive _ hanswered =>
    have hasking : ReplayMerge.isAsking s.state := hanswered.isAsking
    simp [isAwaiting, hasking, hactive] at hnot

theorem doWork_untaken (herr : s.Errorless) (hnot : s.isAwaiting = false)
    (h : s.doWork o env = .ok w) : Untaken s w.merge := by
  rcases doWork_cases herr h with ⟨_, rfl⟩ | ⟨_, v, hv, rfl⟩
  · exact ⟨rfl, rfl, rfl⟩
  · have hreceived : (s.received env).isAwaiting = false := hnot
    have huntaken : Untaken (s.received env) v.merge := hv.1.untaken hreceived
    exact Untaken.settle (s := s) huntaken

/-- A merge that awaits a response and polls no answer to its request stays where it is. -/
theorem doWork_unanswered (herr : s.Errorless) (hawaiting : s.isAwaiting)
    (hanswer : (s.received env).answer = none) :
    s.doWork o env = .ok (settle o env ⟨s.waitCount, none, (s.received env).afterPoll⟩) := by
  obtain ⟨hasking, hactive⟩ := Bool.and_eq_true_iff.mp hawaiting
  have hwork : (s.received env).work o env = .ok ⟨s.waitCount, none, (s.received env).afterPoll⟩ := by
    rw [@work_awaiting (s.received env) o env hasking (of_decide_eq_true hactive) herr, hanswer]
    rfl
  have hopen : s.isDone ≠ true := ne_true_of_eq_false (isDone_of_isAwaiting hawaiting)
  rw [doWork, if_neg hopen]
  change (s.received env).work o env >>= _ = _
  rw [hwork]
  rfl

theorem doWork_answered (herr : s.Errorless)
    (hawaiting : s.isAwaiting) (hanswer : (s.received env).answer = some response)
    (h : s.doWork o env = .ok w) :
    w.merge.uses = s.uses ++ [⟨response, s.activeCorrelationId⟩] ∧
      (w.merge.nextTargetPosition = s.nextTargetPosition ∨ w.merge.nextTargetPosition = response.relevantId) ∧
      (w.merge.replaySessionId = s.replaySessionId ∨ w.merge.replaySessionId = response.relevantId) := by
  obtain ⟨hasking, hactive⟩ := Bool.and_eq_true_iff.mp hawaiting
  have hopen : s.isDone ≠ true := ne_true_of_eq_false (isDone_of_isAwaiting hawaiting)
  rw [doWork, if_neg hopen] at h
  obtain ⟨v, hv, hrest⟩ := ok_of_bind h
  cases hrest
  have hwork : (s.received env).work o env = .ok v := hv
  rw [@work_awaiting (s.received env) o env hasking (of_decide_eq_true hactive) herr, hanswer] at hwork
  have hpolled : isAsking (s.received env).afterPoll.state := hasking
  have huses := (onAnswer_answered hpolled (answer_some hanswer).1 hwork).1.uses
  rcases @settle_cases o env v with hsettle | hsettle <;> rw [hsettle] <;> exact huses

/-- With no answer to poll the merge is, its control apart, as with nothing to poll at all. -/
theorem doWork_silenced (herr : s.Errorless) (hawaiting : s.isAwaiting)
    (hanswer : (s.received env).answer = none) (h : s.doWork o env = .ok w) :
    ∃ v, s.silenced.doWork o { env with arrived := [] } = .ok v ∧
      w.merge = { v.merge with control := w.merge.control } := by
  have hsilent : (s.silenced.received { env with arrived := [] }).answer = none := by
    have hnothing : (s.silenced.received { env with arrived := [] }).control.polled = none := by
      simp [Control.polled, Control.poll, Control.controlledPoll, received, silenced, Control.receive,
        controlFragmentLimit]
    rw [answer, hnothing]
    rfl
  have hstill := doWork_unanswered (o := o) (s := s.silenced) herr hawaiting hsilent
  refine ⟨_, hstill, ?_⟩
  obtain rfl := Except.ok.inj ((doWork_unanswered herr hawaiting hanswer).symm.trans h)
  -- the progress check reads the time of the last progress and the state, which are the same
  have hcheck : (s.received env).afterPoll.checkProgress o env =
      (s.silenced.received { env with arrived := [] }).afterPoll.checkProgress o { env with arrived := [] } := rfl
  simp only [settle, hcheck]
  cases (s.silenced.received { env with arrived := [] }).afterPoll.checkProgress o { env with arrived := [] } <;> rfl

/-! ## Acting on the right responses -/

theorem Faithful.of_taken (h : Faithful o s env t)
    (huses : t.uses = s.uses ++ [⟨response, s.activeCorrelationId⟩]) :
    response.controlSessionId = o.sessionId ∧ response.code = .OK := by
  rcases h.takes with ⟨hsame, _⟩ | ⟨taken, htaken, hsession, _, hcode, _⟩
  · exact absurd (huses.symm.trans hsame) (by simp)
  · have heq := List.append_cancel_left (htaken.symm.trans huses)
    simp only [List.cons.injEq, Use.mk.injEq, and_true] at heq
    rw [← heq]
    exact ⟨hsession, hcode⟩

theorem polledResponse_eq (h : s.polledResponse env = some response) :
    s.isAwaiting ∧ (s.received env).control.polled = some response := by
  simp only [polledResponse] at h
  split at h
  next hawaiting => exact ⟨hawaiting, h⟩
  next => cases h

/-- In every run, a call acts on own successful responses to its request only, fails on own errors and ignores
other sessions if and only if a polled response with the awaited id is an own one with the code `OK`. -/
theorem responses_faithful_iff {s : ReplayMerge} (h : (system o).Reachable s) {w : Worked}
    (hw : s.doWork o env = .ok w) : Faithful o s env w.merge ↔ Trusted o s env := by
  have herr := errorless_of_reachable h
  constructor
  · intro hfaithful response hpolled hid
    obtain ⟨hawaiting, hcontrol⟩ := polledResponse_eq hpolled
    have hanswer : (s.received env).answer = some response :=
      Option.filter_eq_some_iff.mpr ⟨hcontrol, decide_eq_true hid⟩
    have huses := (doWork_answered herr hawaiting hanswer hw).1
    exact hfaithful.of_taken huses
  · intro htrusted
    cases hanswer : (s.received env).answer with
    | some response =>
      cases hawaiting : s.isAwaiting with
      | false =>
        refine ⟨.inl (doWork_untaken herr hawaiting hw), ?_, ?_⟩ <;> intro _ hpolled <;>
          exact nomatch hawaiting.symm.trans (polledResponse_eq hpolled).1
      | true =>
        obtain ⟨hcontrol, hid⟩ := Option.filter_eq_some_iff.mp hanswer
        have hpolled : s.polledResponse env = some response := (if_pos hawaiting).trans hcontrol
        obtain ⟨hsession, hcode⟩ := htrusted response hpolled (of_decide_eq_true hid)
        obtain ⟨huses, htarget, hreplay⟩ := doWork_answered herr hawaiting hanswer hw
        refine ⟨.inr ⟨response, huses, hsession, of_decide_eq_true hid, hcode, htarget, hreplay⟩, ?_, ?_⟩
        · intro other hother _ herror _
          obtain rfl := Option.some.inj (hpolled.symm.trans hother)
          exact nomatch hcode.symm.trans herror
        · intro other hother hforeign
          obtain rfl := Option.some.inj (hpolled.symm.trans hother)
          exact absurd hsession hforeign
    | none =>
      have huntaken : Untaken s w.merge := by
        cases hawaiting : s.isAwaiting with
        | false => exact doWork_untaken herr hawaiting hw
        | true =>
          obtain rfl := Except.ok.inj ((doWork_unanswered herr hawaiting hanswer).symm.trans hw)
          exact Untaken.settle (v := ⟨_, _, _⟩) ⟨rfl, rfl, rfl⟩
      refine ⟨.inl huntaken, ?_, ?_⟩
      · intro response hpolled _ _ hid
        have hsome : (s.received env).answer = some response :=
          Option.filter_eq_some_iff.mpr ⟨(polledResponse_eq hpolled).2, decide_eq_true hid⟩
        exact nomatch hanswer.symm.trans hsome
      · intro response hpolled _
        exact doWork_silenced herr (polledResponse_eq hpolled).1 hanswer hw

/-- The first position is asked for, and the archive reports it. -/
theorem responses_faithful_iff_reported : ∃ s w, (system sample).Reachable s ∧
    s.doWork sample (calm 2 [reports 1]) = .ok w ∧ w.merge.nextTargetPosition = 4096 ∧
    (Faithful sample s (calm 2 [reports 1]) w.merge ↔ Trusted sample s (calm 2 [reports 1])) := by
  obtain ⟨s, hs, hq⟩ := System.exists_reachable (Started sample) (step sample) sampleStart_started
    [.doWork (calm 1 [])]
    (fun s => (s.doWork sample (calm 2 [reports 1])).toOption.any (·.merge.nextTargetPosition = 4096))
    (by decide +kernel)
  cases hw : s.doWork sample (calm 2 [reports 1]) with
  | error e =>
    rw [hw] at hq
    cases hq
  | ok w =>
    rw [hw] at hq
    exact ⟨s, w, hs, hw, of_decide_eq_true hq, responses_faithful_iff hs hw⟩

/-- A call takes a response for the recorded position and goes on to replay. -/
def mistakes (s : ReplayMerge) (response : ControlResponse) : Bool :=
  (s.doWork sample (calm 2 [.controlResponse response])).toOption.any fun w =>
    w.merge.nextTargetPosition = response.relevantId ∧ w.merge.state = .replay ∧
      w.merge.uses = s.uses ++ [⟨response, s.activeCorrelationId⟩]

theorem mistakes_unfaithful (h : s.mistakes response)
    (hbad : ¬ (response.controlSessionId = sample.sessionId ∧ response.code = .OK)) :
    ∃ w, s.doWork sample (calm 2 [.controlResponse response]) = .ok w ∧
      w.merge.nextTargetPosition = response.relevantId ∧ w.merge.state = .replay ∧
      ¬ Faithful sample s (calm 2 [.controlResponse response]) w.merge := by
  unfold mistakes at h
  cases hw : s.doWork sample (calm 2 [.controlResponse response]) with
  | error e =>
    rw [hw] at h
    cases h
  | ok w =>
    rw [hw] at h
    obtain ⟨htarget, hstate, huses⟩ := of_decide_eq_true h
    exact ⟨w, rfl, htarget, hstate, fun hfaithful => hbad (hfaithful.of_taken huses)⟩

/-- An error of the archive's own session is taken for a position, and so is a response of another session. -/
theorem error_taken_for_position :
    ∃ s, (system sample).Reachable s ∧ s.activeCorrelationId = 1 ∧
      ∀ response ∈ [(⟨7, 1, 9, .ERROR, by decide⟩ : ControlResponse), ⟨8, 1, 9, .OK, by decide⟩],
        ∃ w, s.doWork sample (calm 2 [.controlResponse response]) = .ok w ∧
          w.merge.nextTargetPosition = response.relevantId ∧ w.merge.state = .replay ∧
          ¬ Faithful sample s (calm 2 [.controlResponse response]) w.merge := by
  obtain ⟨s, hs, hq⟩ := System.exists_reachable (Started sample) (step sample) sampleStart_started
    [.doWork (calm 1 [])]
    (fun s => decide (s.activeCorrelationId = 1 ∧ s.mistakes ⟨7, 1, 9, .ERROR, by decide⟩ ∧
      s.mistakes ⟨8, 1, 9, .OK, by decide⟩)) (by decide +kernel)
  obtain ⟨hactive, herror, hforeign⟩ := of_decide_eq_true hq
  refine ⟨s, hs, hactive, ?_⟩
  intro response hresponse
  simp only [List.mem_cons, List.not_mem_nil, or_false] at hresponse
  rcases hresponse with rfl | rfl
  · exact mistakes_unfaithful herror (by decide)
  · exact mistakes_unfaithful hforeign (by decide)

end AeronGo.Archive.ReplayMerge
