import AeronGo.Archive.ReplayMerge
import AeronGo.Laws.Atomic.Buffer

/-!
# What one DoWork does

A poll of the control stream yields a response or nothing (`Control.polled`), and a merge that awaits a
response takes it for the answer if it has the awaited correlation id (`answer`). `Effect` lists all that the
work of a state can do, `join_cases` what the last position leads to; `settle_cases` adds the progress check
that follows. Nothing below this module opens the functions of the merge again.
-/

namespace AeronGo.Archive

open Machine Atomic Driver

/-! ## Destinations -/

/-- A call finds the subscription open, and its command is written. -/
def takes (link : Link) : Bool := !link.isSubscriptionClosed && link.isDriverActive && link.ringTakes

/-- A destination is added if the driver takes the command. -/
theorem addDestination_ring (link : Link) (ring : List Command) (registrationID : Int) (channel : String) :
    (Subscription.addDestination link ring registrationID channel).2 =
      if takes link then ring ++ [.addRcvDestination registrationID channel] else ring := by
  obtain ⟨closed, active, taken⟩ := link
  cases closed <;> cases active <;> cases taken <;> rfl

theorem removeDestination_ring (link : Link) (ring : List Command) (registrationID : Int) (channel : String) :
    (Subscription.removeDestination link ring registrationID channel).2 =
      if takes link then ring ++ [.removeRcvDestination registrationID channel] else ring := by
  obtain ⟨closed, active, taken⟩ := link
  cases closed <;> cases active <;> cases taken <;> rfl

/-! ## Polling -/

namespace Control

/-- The response that a poll leaves. -/
def polled (control : Control) : Option ControlResponse :=
  if 0 < control.poll.1 ∧ control.poll.2.results.isPollComplete then control.poll.2.results.controlResponse else none

/-- Results as a poll starts and leaves them: complete with a response and its correlation id, or not. -/
def Consistent (results : ControlResults) : Prop :=
  results.isPollComplete = true →
    ∃ response, results.controlResponse = some response ∧ results.correlationId = response.correlationId

/-- A poll leaves consistent results, and no error that was not there. -/
theorem controlledPoll_spec (limit : Nat) {results : ControlResults} (pending : List ControlFragment)
    (hopen : results.isPollComplete = false) :
    Consistent (controlledPoll limit results pending).2.1 ∧
      (controlledPoll limit results pending).2.1.errorResponse = results.errorResponse := by
  have hconsistent : Consistent results := fun h => nomatch hopen.symm.trans h
  induction limit generalizing pending with
  | zero => exact ⟨hconsistent, rfl⟩
  | succ limit ih =>
    cases pending with
    | nil => exact ⟨hconsistent, rfl⟩
    | cons fragment rest =>
      cases fragment with
      | controlResponse response =>
        have hdone : controlledPoll (limit + 1) results (.controlResponse response :: rest) =
            (1, { results with
              controlResponse := some response
              isPollComplete := true
              correlationId := response.correlationId }, rest) := by
          simp [controlledPoll, onFragment, hopen]
        rw [hdone]
        exact ⟨fun _ => ⟨response, rfl, rfl⟩, rfl⟩
      | other =>
        have hgo : (controlledPoll (limit + 1) results (.other :: rest)).2 =
            (controlledPoll limit results rest).2 := by
          simp [controlledPoll, onFragment, hopen]
        rw [hgo]
        exact ih rest

/-- The same of `Poll`, which starts afresh after a poll that was complete. -/
theorem poll_spec (control : Control) (herr : control.results.errorResponse = none) :
    Consistent control.poll.2.results ∧ control.poll.2.results.errorResponse = none := by
  cases hdone : control.results.isPollComplete with
  | true =>
    have hpoll := @controlledPoll_spec controlFragmentLimit ControlResults.empty control.pending rfl
    simp only [poll, hdone, ↓reduceIte]
    exact hpoll
  | false =>
    have hpoll := controlledPoll_spec controlFragmentLimit control.pending hdone
    simp only [poll, hdone, Bool.false_eq_true, ↓reduceIte]
    exact ⟨hpoll.1, hpoll.2.trans herr⟩

end Control

variable {response : ControlResponse} {rm s t : ReplayMerge} {w : Worked}

namespace ReplayMerge

variable {o : MergeOptions} {env : Env}

/-- No error is left in the results. -/
def Errorless (rm : ReplayMerge) : Prop := rm.control.results.errorResponse = none

/-- The polled response has the awaited correlation id. -/
def answer (rm : ReplayMerge) : Option ControlResponse :=
  rm.control.polled.filter (·.correlationId = rm.activeCorrelationId)

/-- The merge after a poll. -/
def afterPoll (rm : ReplayMerge) : ReplayMerge := { rm with control := rm.control.poll.2 }

/-- The answer is the response that was polled, and has the awaited id. -/
theorem answer_some (h : rm.answer = some response) :
    rm.afterPoll.control.results.controlResponse = some response ∧
      response.correlationId = rm.activeCorrelationId := by
  obtain ⟨hpolled, hid⟩ := Option.filter_eq_some_iff.mp h
  refine ⟨?_, of_decide_eq_true hid⟩
  simp only [Control.polled] at hpolled
  split at hpolled
  · exact hpolled
  · cases hpolled

/-- With no error left in the results, a poll succeeds if and only if there is an answer. -/
theorem pollForResponse_eq (herr : rm.Errorless) :
    rm.pollForResponse o = .ok (rm.answer.isSome, none, rm.afterPoll) := by
  obtain ⟨hconsistent, hnone⟩ := rm.control.poll_spec herr
  by_cases hcomplete : 0 < rm.control.poll.1 ∧ rm.control.poll.2.results.isPollComplete = true
  · obtain ⟨response, hresponse, hid⟩ := hconsistent hcomplete.2
    have hanswer : rm.answer.isSome = decide (response.correlationId = rm.activeCorrelationId) := by
      simp [answer, Control.polled, hcomplete, hresponse, Option.filter]
      split <;> simp_all
    simp only [pollForResponse, hcomplete, and_self, ↓reduceIte, hresponse, hnone, hid, hanswer]
    cases decide (response.controlSessionId = o.sessionId) <;> rfl
  · have hanswer : rm.answer.isSome = false := by
      simp [answer, Control.polled, hcomplete]
    simp only [pollForResponse, hcomplete, ↓reduceIte, hanswer]
    rfl

/-- The merge once the response is taken. -/
def taken (rm : ReplayMerge) (response : ControlResponse) : ReplayMerge :=
  { rm with uses := rm.uses ++ [⟨response, rm.activeCorrelationId⟩] }

theorem polledRelevantId_eq
    (h : rm.control.results.controlResponse = some response) :
    rm.polledRelevantId = .ok (response.relevantId, rm.taken response) := by
  simp only [polledRelevantId, h]
  rfl

/-! ## Effects -/

/-- Only the control, the progress and the image may differ. -/
inductive Idle (s : ReplayMerge) : ReplayMerge → Prop
  | mk {control : Control} {time position : Int} {hasImage : Bool}
      (errorless : s.Errorless → control.results.errorResponse = none) : Idle s { s with
    control := control
    timeOfLastProgressMs := time
    positionOfLastProgress := position
    hasImage := hasImage }

theorem Idle.refl (s : ReplayMerge) : Idle s s := .mk id

theorem Idle.trans {s t u : ReplayMerge} (hst : Idle s t) (htu : Idle t u) : Idle s u := by
  obtain ⟨hs⟩ := hst
  obtain ⟨ht⟩ := htu
  exact .mk fun h => ht (hs h)

/-- A step that does nothing calls no destination. -/
theorem Idle.calls (h : Idle s t) : t.calls = s.calls := by
  cases h
  rfl

/-- The states that await a response. -/
def isAsking (state : MergeState) : Bool :=
  state = .getRecordingPosition || state = .replay || state = .attemptLiveJoin

/-- The merge has a request made and awaits the response. -/
def asked (rm : ReplayMerge) (request : Request) : ReplayMerge :=
  { rm with activeCorrelationId := request.correlationId, requests := rm.requests ++ [request] }

/-- A recorded position was reported. -/
def positioned (rm : ReplayMerge) (position : Int) : ReplayMerge :=
  { rm with nextTargetPosition := position, activeCorrelationId := nullValue }

/-- What the answer to a request leads to. -/
inductive Answered (o : MergeOptions) (env : Env) (s : ReplayMerge) (response : ControlResponse) : ReplayMerge → Prop
  /-- There is no position yet, and the next request was not taken. -/
  | unknown {t : ReplayMerge} : isAsking s.state → Idle (s.positioned response.relevantId) t →
      Answered o env s response t
  | unknownAsked {t : ReplayMerge} (request : Request) : isAsking s.state →
      Idle ((s.positioned response.relevantId).asked request) t → Answered o env s response t
  | target {t : ReplayMerge} : s.state = .getRecordingPosition → Idle (s.positioned response.relevantId) t →
      Answered o env s response (t.setState .replay)
  | started {t : ReplayMerge} : s.state = .replay →
      Idle { s with isReplayActive := true, replaySessionId := response.relevantId } t →
      Answered o env s response (t.setState .catchup)
  | joins : s.state = .attemptLiveJoin → Answered o env s response ((s.positioned response.relevantId).join o env)

/-- What the work of a state leads to. -/
inductive Effect (o : MergeOptions) (env : Env) (s : ReplayMerge) : ReplayMerge → Prop
  | idle {t : ReplayMerge} : Idle s t → Effect o env s t
  | resolves {t : ReplayMerge} (endpoint : List Char) : s.state = .resolveReplayPort → Idle s t →
      Effect o env s ({ t with endpoint := endpoint }.setState .getRecordingPosition)
  | catchesUp {t : ReplayMerge} : s.state = .catchup → Idle s t → Effect o env s (t.setState .attemptLiveJoin)
  | asks {t : ReplayMerge} (request : Request) : s.activeCorrelationId = nullValue → isAsking s.state →
      Idle (s.asked request) t → Effect o env s t
  | answers {t : ReplayMerge} (response : ControlResponse) : s.activeCorrelationId ≠ nullValue →
      s.answer = some response → Answered o env (s.afterPoll.taken response) response t → Effect o env s t

/-- A request is taken or not. -/
theorem await_cases (rm : ReplayMerge) (request : Int → Request) (hid : ∀ id, (request id).correlationId = id) :
    rm.await env request = some (rm.asked (request env.correlationId)) ∨ rm.await env request = none := by
  cases htakes : env.takesRequest with
  | true => exact .inl (by simp only [await, htakes, asked, hid, ↓reduceIte])
  | false => exact .inr (by simp only [await, htakes, Bool.false_eq_true, ↓reduceIte])

/-- What a state's work may leave: its effect, and nothing at all together with an error. -/
def Works (o : MergeOptions) (env : Env) (s : ReplayMerge) (w : Worked) : Prop :=
  Effect o env s w.merge ∧ (w.err = none ∨ Idle s w.merge)

/-- `resolveReplayPort` does what `Works` lists. -/
theorem resolveReplayPort_works (hstate : s.state = .resolveReplayPort)
    (h : s.resolveReplayPort o env = .ok w) : Works o env s w := by
  simp only [resolveReplayPort] at h
  split at h
  · cases h
    exact ⟨.idle (.refl s), .inl rfl⟩
  · split at h
    · cases h
    · cases h
      exact ⟨.resolves _ hstate (t := { s with timeOfLastProgressMs := env.nowMs }) (.mk id), .inl rfl⟩

/-- The answer to the request for the recording position. -/
theorem onRecordingPosition_answered
    (hstate : s.state = .getRecordingPosition) (hresponse : s.control.results.controlResponse = some response)
    (h : s.onRecordingPosition o env = .ok w) :
    Answered o env (s.taken response) response w.merge ∧ w.err = none := by
  have hasking : isAsking (s.taken response).state := by
    simp only [taken, hstate]
    rfl
  simp only [onRecordingPosition, polledRelevantId_eq hresponse, ok_bind] at h
  split at h
  · rcases await_cases ((s.taken response).positioned response.relevantId) (stopPositionRequest o) (fun _ => rfl)
      with hawait | hawait <;> simp only [positioned] at hawait <;> rw [hawait] at h <;> cases h
    · exact ⟨.unknownAsked _ hasking (.mk id), rfl⟩
    · exact ⟨.unknown hasking (.refl _), rfl⟩
  · cases h
    exact ⟨.target hstate (.mk id), rfl⟩

/-- The answer to the request for a replay. -/
theorem onReplayStarted_answered
    (hstate : s.state = .replay) (hresponse : s.control.results.controlResponse = some response)
    (h : s.onReplayStarted env = .ok w) :
    Answered o env (s.taken response) response w.merge ∧ w.err = none := by
  have hstarted : ({ s with isReplayActive := true } : ReplayMerge).control.results.controlResponse = some response :=
    hresponse
  simp only [onReplayStarted, polledRelevantId_eq hstarted, ok_bind] at h
  cases h
  exact ⟨.started hstate (.mk id), rfl⟩

/-- The answer to the request for the last position. -/
theorem onLivePosition_answered
    (hstate : s.state = .attemptLiveJoin) (hresponse : s.control.results.controlResponse = some response)
    (h : s.onLivePosition o env = .ok w) :
    Answered o env (s.taken response) response w.merge ∧ w.err = none := by
  have hasking : isAsking (s.taken response).state := by
    simp only [taken, hstate]
    rfl
  simp only [onLivePosition, polledRelevantId_eq hresponse, ok_bind] at h
  split at h
  · rcases await_cases ((s.taken response).positioned response.relevantId) (recordingPositionRequest o) (fun _ => rfl)
      with hawait | hawait <;> simp only [positioned] at hawait <;> rw [hawait] at h <;> cases h
    · exact ⟨.unknownAsked _ hasking (.refl _), rfl⟩
    · exact ⟨.unknown hasking (.refl _), rfl⟩
  · cases h
    exact ⟨.joins hstate, rfl⟩

theorem findImage_idle (s : ReplayMerge) : Idle s (s.findImage env) := by
  simp only [findImage]
  split
  · exact .mk id
  · exact .refl s

theorem catchup_works (hstate : s.state = .catchup) : Works o env s (s.catchup env) := by
  have hfound : Idle s (s.findImage env) := findImage_idle s
  simp only [catchup]
  split
  · split
    · exact ⟨.catchesUp hstate (hfound.trans (.mk id)), .inl rfl⟩
    · split
      · exact ⟨.idle (hfound.trans (.mk id)), .inl rfl⟩
      · split
        · exact ⟨.idle hfound, .inr hfound⟩
        · exact ⟨.idle hfound, .inl rfl⟩
  · exact ⟨.idle hfound, .inl rfl⟩

/-- What a state does with the answer to its request. -/
def onAnswer (o : MergeOptions) (env : Env) (rm : ReplayMerge) : Except Stop Worked :=
  match rm.state with
  | .getRecordingPosition => rm.onRecordingPosition o env
  | .replay => rm.onReplayStarted env
  | _ => rm.onLivePosition o env

theorem onAnswer_answered (hasking : isAsking s.state)
    (hresponse : s.control.results.controlResponse = some response) (h : s.onAnswer o env = .ok w) :
    Answered o env (s.taken response) response w.merge ∧ w.err = none := by
  simp only [isAsking, Bool.or_eq_true, decide_eq_true_eq] at hasking
  rcases hasking with (hstate | hstate) | hstate <;> simp only [onAnswer, hstate] at h
  · exact onRecordingPosition_answered hstate hresponse h
  · exact onReplayStarted_answered hstate hresponse h
  · exact onLivePosition_answered hstate hresponse h

/-- The work counted while there is no answer. -/
def waitCount (rm : ReplayMerge) : Int := if rm.state = .getRecordingPosition then 1 else 0

/-- A state that awaits a response goes on with the answer, and otherwise has only polled. -/
theorem work_awaiting (hasking : isAsking s.state) (hactive : s.activeCorrelationId ≠ nullValue)
    (herr : s.Errorless) :
    s.work o env =
      if s.answer.isSome then s.afterPoll.onAnswer o env else .ok ⟨s.waitCount, none, s.afterPoll⟩ := by
  simp only [isAsking, Bool.or_eq_true, decide_eq_true_eq] at hasking
  rcases hasking with (hstate | hstate) | hstate
  · simp only [work, hstate, getRecordingPosition, if_neg hactive, pollForResponse_eq herr, ok_bind, onAnswer,
      afterPoll, waitCount]
    rfl
  · simp only [work, hstate, replay, if_neg hactive, pollForResponse_eq herr, ok_bind, onAnswer, afterPoll, waitCount]
    rfl
  · simp only [work, hstate, attemptLiveJoin, if_neg hactive, pollForResponse_eq herr, ok_bind, onAnswer, afterPoll,
      waitCount]
    rfl

/-- A state that awaits nothing makes its request. -/
theorem work_asking (hasking : isAsking s.state)
    (hnull : s.activeCorrelationId = nullValue) (h : s.work o env = .ok w) : Works o env s w := by
  have hasks := hasking
  simp only [isAsking, Bool.or_eq_true, decide_eq_true_eq] at hasking
  rcases hasking with (hstate | hstate) | hstate
  · simp only [work, hstate, getRecordingPosition, if_pos hnull] at h
    rcases await_cases s (recordingPositionRequest o) (fun _ => rfl) with hawait | hawait <;>
      rw [hawait] at h <;> cases h
    · exact ⟨.asks _ hnull hasks (.mk id), .inl rfl⟩
    · exact ⟨.idle (.refl s), .inl rfl⟩
  · simp only [work, hstate, replay, if_pos hnull] at h
    rcases await_cases s (replayRequest o s) (fun _ => rfl) with hawait | hawait <;> rw [hawait] at h <;> cases h
    · exact ⟨.asks _ hnull hasks (.mk id), .inl rfl⟩
    · exact ⟨.idle (.refl s), .inl rfl⟩
  · simp only [work, hstate, attemptLiveJoin, if_pos hnull] at h
    rcases await_cases s (recordingPositionRequest o) (fun _ => rfl) with hawait | hawait <;>
      rw [hawait] at h <;> cases h
    · exact ⟨.asks _ hnull hasks (.refl _), .inl rfl⟩
    · exact ⟨.idle (.refl s), .inl rfl⟩

/-- A merge that waits takes the answer or goes on waiting. -/
theorem awaiting_works (hasking : isAsking s.state)
    (hactive : s.activeCorrelationId ≠ nullValue) (herr : s.Errorless) (h : s.work o env = .ok w) :
    Works o env s w := by
  rw [work_awaiting hasking hactive herr] at h
  cases hanswer : s.answer with
  | none =>
    simp only [hanswer, Option.isSome_none, Bool.false_eq_true, ↓reduceIte] at h
    cases h
    exact ⟨.idle (.mk fun h => (s.control.poll_spec h).2), .inl rfl⟩
  | some response =>
    simp only [hanswer, Option.isSome_some, ↓reduceIte] at h
    have hpolled : isAsking s.afterPoll.state := hasking
    obtain ⟨hanswered, hnone⟩ := onAnswer_answered hpolled (answer_some hanswer).1 h
    exact ⟨.answers response hactive hanswer hanswered, .inl hnone⟩

/-- The work of any state is one of the cases of `Works`. -/
theorem work_works (herr : s.Errorless) (h : s.work o env = .ok w) :
    Works o env s w := by
  cases hasking : isAsking s.state with
  | true =>
    by_cases hnull : s.activeCorrelationId = nullValue
    · exact work_asking hasking hnull h
    · exact awaiting_works hasking hnull herr h
  | false =>
    unfold work at h
    split at h
    next hstate => exact resolveReplayPort_works hstate h
    next hstate => simp [isAsking, hstate] at hasking
    next hstate => simp [isAsking, hstate] at hasking
    next hstate =>
      cases h
      exact catchup_works hstate
    next hstate => simp [isAsking, hstate] at hasking
    all_goals
      cases h
      exact ⟨.idle (.refl s), .inl rfl⟩

/-- The live destination is added, or the replay removed, or neither. -/
theorem join_cases (s : ReplayMerge) :
    s.join o env = s.setState .catchup ∨
    (s.isLiveAdded = false ∧
      i64 (s.nextTargetPosition - env.image.position) ≤ min (env.image.termBufferLength / 4) liveAddMaxWindow ∧
      s.join o env = { s.addLiveDestination o env with
        timeOfLastProgressMs := env.nowMs
        positionOfLastProgress := env.image.position
        isLiveAdded := true }.setState .catchup) ∨
    (s.isLiveAdded = true ∧
      i64 (s.nextTargetPosition - env.image.position) ≤ replayRemoveThreshold ∧
      2 ≤ env.image.activeTransportCount ∧
      s.join o env = { (s.removeReplayDestination o env).stopReplay env with
        timeOfLastProgressMs := env.nowMs
        positionOfLastProgress := env.image.position }.setState .merged) := by
  unfold join
  split
  · split
    next hadd =>
      obtain ⟨hlive, hwindow⟩ := Bool.and_eq_true_iff.mp hadd
      exact .inr (.inl ⟨by simpa using hlive, of_decide_eq_true hwindow, rfl⟩)
    next =>
      split
      next hremove =>
        obtain ⟨hboth, htransports⟩ := Bool.and_eq_true_iff.mp hremove
        obtain ⟨hlive, hreached⟩ := Bool.and_eq_true_iff.mp hboth
        exact .inr (.inr ⟨hlive, of_decide_eq_true hreached, of_decide_eq_true htransports, rfl⟩)
      next => exact .inl rfl
  · exact .inl rfl

/-! ## DoWork -/

/-- The merge once the fragments of a call have arrived. -/
def received (s : ReplayMerge) (env : Env) : ReplayMerge := { s with control := s.control.receive env.arrived }

/-- The outcome is kept, or the merge fails. -/
theorem settle_cases (w : Worked) :
    (settle o env w).merge = w.merge ∨ (settle o env w).merge = w.merge.setState .failed := by
  unfold settle
  split
  · exact .inr rfl
  · split
    · exact .inr rfl
    · exact .inl rfl

/-- Work without an error, in time, is kept. -/
theorem settle_of_progress (herr : w.err = none)
    (htime : env.nowMs ≤ i64 (w.merge.timeOfLastProgressMs + o.mergeProgressTimeoutMs)) : settle o env w = w := by
  have hprogress : w.merge.checkProgress o env = none := if_neg (Int.not_lt.mpr htime)
  simp only [settle, herr, hprogress]

/-- Nothing is done in a final state; elsewhere a state's work is settled. -/
theorem doWork_cases (herr : s.Errorless)
    (h : s.doWork o env = .ok w) :
    (s.isDone = true ∧ w = ⟨0, none, s⟩) ∨
    (s.isDone = false ∧ ∃ v, Works o env (s.received env) v ∧ w = settle o env v) := by
  unfold doWork at h
  split at h
  next hdone =>
    cases h
    exact .inl ⟨hdone, rfl⟩
  next hdone =>
    obtain ⟨v, hv, hrest⟩ := ok_of_bind h
    cases hrest
    exact .inr ⟨by simpa using hdone, v, work_works (s := s.received env) herr hv, rfl⟩

/-- The calls of some purpose. -/
def times (rm : ReplayMerge) (purpose : Purpose) : Nat := rm.calls.countP (·.purpose = purpose)

/-- A call is noted with whether its command was taken. -/
theorem call_calls (s : ReplayMerge) {purpose : Purpose} {called : Called} {link : Link} {command : Command}
    (h : called.2 = if takes link then s.ring ++ [command] else s.ring) :
    (s.call purpose called).calls = s.calls ++ [⟨purpose, takes link⟩] := by
  simp only [call, h]
  cases takes link <;> simp

theorem addLiveDestination_calls (s : ReplayMerge) :
    (s.addLiveDestination o env).calls = s.calls ++ [⟨.addLive, takes env.link⟩] :=
  s.call_calls (addDestination_ring _ _ _ _)

theorem removeReplayDestination_calls (s : ReplayMerge) :
    (s.removeReplayDestination o env).calls = s.calls ++ [⟨.removeReplay, takes env.link⟩] :=
  s.call_calls (removeDestination_ring _ _ _ _)

@[simp] theorem stopReplay_calls (s : ReplayMerge) : (s.stopReplay env).calls = s.calls := by
  unfold stopReplay
  split <;> rfl

@[simp] theorem stopReplay_uses (s : ReplayMerge) : (s.stopReplay env).uses = s.uses := by
  unfold stopReplay
  split <;> rfl

@[simp] theorem stopReplay_isLiveAdded (s : ReplayMerge) : (s.stopReplay env).isLiveAdded = s.isLiveAdded := by
  unfold stopReplay
  split <;> rfl

@[simp] theorem stopReplay_control (s : ReplayMerge) : (s.stopReplay env).control = s.control := by
  unfold stopReplay
  split <;> rfl

/-- What a state's work means for the destinations. -/
inductive Turn (env : Env) (s : ReplayMerge) : ReplayMerge → Prop
  | quiet {t : ReplayMerge} : t.calls = s.calls → t.isLiveAdded = s.isLiveAdded → t.isDone = false → Turn env s t
  | adds {t : ReplayMerge} (response : ControlResponse) : s.isLiveAdded = false →
      response.relevantId - env.image.position ≤ min (env.image.termBufferLength / 4) liveAddMaxWindow →
      t.uses = s.uses ++ [⟨response, s.activeCorrelationId⟩] → t.calls = s.calls ++ [⟨.addLive, takes env.link⟩] →
      t.isLiveAdded = true → t.isDone = false → Turn env s t
  | merges {t : ReplayMerge} (response : ControlResponse) : s.isLiveAdded = true →
      response.relevantId - env.image.position ≤ replayRemoveThreshold → 2 ≤ env.image.activeTransportCount →
      t.uses = s.uses ++ [⟨response, s.activeCorrelationId⟩] →
      t.calls = s.calls ++ [⟨.removeReplay, takes env.link⟩] → t.isLiveAdded = true → t.state = .merged →
      t.timeOfLastProgressMs = env.nowMs → Turn env s t

/-- A difference to a position can wrap upwards only. -/
theorem distance_le {bound : Int}
    (h : i64 (response.relevantId - env.image.position) ≤ bound) :
    response.relevantId - env.image.position ≤ bound := by
  have hrelevant := response.relevantId_range
  have hposition := env.image.position_range
  simp only [I64] at hrelevant
  simp only [i64] at h
  omega

theorem join_turn :
    Turn env s (((s.afterPoll.taken response).positioned response.relevantId).join o env) := by
  rcases join_cases ((s.afterPoll.taken response).positioned response.relevantId) with h | ⟨hlive, hwindow, h⟩ |
    ⟨hlive, hreached, htransports, h⟩ <;> rw [h]
  · exact .quiet rfl rfl rfl
  · exact .adds response hlive (distance_le hwindow) rfl (addLiveDestination_calls _) rfl rfl
  · refine .merges response hlive (distance_le hreached) htransports ?_ ?_ ?_ rfl rfl
    · simp only [setState, stopReplay_uses]
      rfl
    · simp only [setState, stopReplay_calls, removeReplayDestination_calls]
      rfl
    · simp only [setState, stopReplay_isLiveAdded]
      exact hlive

/-- Whatever the work of a state does, it is one of the turns. -/
theorem Effect.turn (hdone : s.isDone = false) (h : Effect o env s t) : Turn env s t := by
  cases h with
  | idle hidle | asks _ _ _ hidle =>
    cases hidle
    exact .quiet rfl rfl hdone
  | resolves _ _ hidle | catchesUp _ hidle =>
    cases hidle
    exact .quiet rfl rfl rfl
  | answers response _ _ hanswered =>
    cases hanswered with
    | unknown _ hidle | unknownAsked _ _ hidle =>
      cases hidle
      exact .quiet rfl rfl hdone
    | target _ hidle | started _ hidle =>
      cases hidle
      exact .quiet rfl rfl rfl
    | joins _ => exact join_turn

/-- No work leaves an error in the results. -/
theorem Effect.errorless (herr : s.Errorless) (h : Effect o env s t) : t.Errorless := by
  cases h with
  | idle hidle | resolves _ _ hidle | catchesUp _ hidle | asks _ _ _ hidle =>
    obtain ⟨hcontrol⟩ := hidle
    exact hcontrol herr
  | answers response _ _ hanswered =>
    have hpolled : s.afterPoll.Errorless := (s.control.poll_spec herr).2
    cases hanswered with
    | unknown _ hidle | unknownAsked _ _ hidle | target _ hidle | started _ hidle =>
      obtain ⟨hcontrol⟩ := hidle
      exact hcontrol hpolled
    | joins _ =>
      rcases join_cases ((s.afterPoll.taken response).positioned response.relevantId) with h | ⟨_, _, h⟩ |
        ⟨_, _, _, h⟩ <;> rw [h]
      · exact hpolled
      · exact hpolled
      · simp only [Errorless, setState, stopReplay_control]
        exact hpolled

/-! ## Close -/

/-- What a `Close` leaves of a merge that was not closed. -/
structure Closes (s : ReplayMerge) (env : Env) (t : ReplayMerge) : Prop where
  state : t.state = .closed
  activeCorrelationId : t.activeCorrelationId = nullValue
  isLiveAdded : t.isLiveAdded = s.isLiveAdded
  control : t.control = s.control
  isAeronClosed : t.isAeronClosed = s.isAeronClosed
  calls : t.calls = if s.isAeronClosed ∨ s.state = .merged then s.calls
    else s.calls ++ [⟨.removeReplay, takes env.link⟩]

theorem stopReplay_if (p : Prop) [Decidable p] (s : ReplayMerge) :
    ∃ isReplayActive requests, (if p then s.stopReplay env else s) =
      { s with isReplayActive := isReplayActive, requests := requests } := by
  unfold stopReplay
  split
  · split <;> exact ⟨_, _, rfl⟩
  · exact ⟨_, _, rfl⟩

/-- What `Close` does the first time, -/
theorem close_closes (hstate : s.state ≠ .closed) : Closes s env (s.close o env) := by
  cases haeron : s.isAeronClosed with
  | true =>
    simp only [close, hstate, haeron, ↓reduceIte]
    exact ⟨rfl, rfl, rfl, rfl, rfl, by simp [setState, haeron]⟩
  | false =>
    simp only [close, hstate, haeron, Bool.false_eq_true, ↓reduceIte]
    by_cases hmerged : s.state = .merged
    · simp only [hmerged, ↓reduceIte]
      obtain ⟨_, _, hstop⟩ := @stopReplay_if env (s.isReplayActive = true ∧ env.isArchiveConnected = true) _ s
      rw [hstop]
      exact ⟨rfl, rfl, rfl, rfl, rfl, by simp [setState, hmerged]⟩
    · simp only [hmerged, ↓reduceIte]
      obtain ⟨_, _, hstop⟩ := @stopReplay_if env
        ((s.removeReplayDestination o env).isReplayActive = true ∧ env.isArchiveConnected = true)
        _ (s.removeReplayDestination o env)
      rw [hstop]
      refine ⟨rfl, rfl, rfl, rfl, rfl, ?_⟩
      simp only [setState, removeReplayDestination_calls, haeron, hmerged, Bool.false_eq_true, or_self, ↓reduceIte]

/-- and the second time. -/
theorem close_of_closed (hstate : s.state = .closed) : s.close o env = s := if_pos hstate

/-! ## Steps -/

theorem step_doWork (h : step o s (.doWork env) = some t) :
    ∃ w, s.doWork o env = .ok w ∧ w.merge = t := by
  simp only [step] at h
  cases hw : s.doWork o env with
  | error e =>
    rw [hw] at h
    cases h
  | ok w =>
    rw [hw] at h
    exact ⟨w, rfl, Option.some.inj h⟩

/-- A step leaves no error in the results. -/
theorem step_errorless {a : Action} (herr : s.Errorless) (h : step o s a = some t) :
    t.Errorless := by
  cases a with
  | doWork env =>
    obtain ⟨w, hw, rfl⟩ := step_doWork h
    rcases doWork_cases herr hw with ⟨_, rfl⟩ | ⟨_, v, hv, rfl⟩
    · exact herr
    · have hreceived : (s.received env).Errorless := herr
      have hv' : v.merge.Errorless := hv.1.errorless hreceived
      rcases @settle_cases o env v with hsettle | hsettle <;> rw [hsettle] <;> exact hv'
  | close env =>
    cases h
    by_cases hstate : s.state = .closed
    · rw [close_of_closed hstate]
      exact herr
    · rw [Errorless, (close_closes hstate).control]
      exact herr
  | closeAeron =>
    cases h
    exact herr

/-- No run leaves an error response in the control results. -/
theorem errorless_of_reachable (h : (system o).Reachable s) : s.Errorless := by
  refine h.invariant ?_ fun s a t hs (hn : step o s a = some t) => step_errorless hs hn
  rintro s ⟨control, nowMs, link, hcontrol, rfl⟩
  exact hcontrol

end ReplayMerge

end AeronGo.Archive
