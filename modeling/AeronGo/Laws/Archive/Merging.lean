import AeronGo.Laws.Archive.ReplayMerge

/-!
# Safety of the replay merge

The destination calls of a merge follow its state: the live destination was added if and only if
`isLiveAdded`, and the replay destination was removed by the step to `merged` or by the `Close` that found
Aeron open (`Ledger`). The step to `merged` reads the clock once for the progress and its check, so it cannot
end in `failed` as long as the timeout does not overflow; with a negative timeout it could, and a later
`Close` would remove the destination again.
-/

namespace AeronGo.Archive.ReplayMerge

open Machine Atomic Driver

variable {o : MergeOptions} {env : Env}

/-- The timeout after a clock reading does not overflow. -/
def Timely (o : MergeOptions) (_ : ReplayMerge) : Action → Prop
  | .doWork env => I64 env.nowMs ∧ env.nowMs + o.mergeProgressTimeoutMs < 9223372036854775808
  | _ => True

variable {a : Action} {s t : ReplayMerge}

/-- The state's work is kept, or the merge fails, not though from `merged`. -/
theorem doWork_turn {w : Worked} (ht : 0 ≤ o.mergeProgressTimeoutMs)
    (htimely : Timely o s (.doWork env)) (herr : s.Errorless) (h : s.doWork o env = .ok w) :
    (s.isDone = true ∧ w.merge = s) ∨
    (s.isDone = false ∧ ∃ v, Turn env (s.received env) v ∧
      (w.merge = v ∨ (w.merge = v.setState .failed ∧ v.isDone = false))) := by
  rcases doWork_cases herr h with ⟨hdone, rfl⟩ | ⟨hdone, v, hv, rfl⟩
  · exact .inl ⟨hdone, rfl⟩
  · have hopen : (s.received env).isDone = false := hdone
    have hturn := hv.1.turn hopen
    refine .inr ⟨hdone, v.merge, hturn, ?_⟩
    cases hturn with
    | quiet _ _ hopen | adds _ _ _ _ _ _ hopen => exact (settle_cases v).imp_right fun h => ⟨h, hopen⟩
    | merges _ _ _ _ _ hcalls _ _ htime =>
      have hnone : v.err = none := by
        refine hv.2.resolve_right fun hidle => ?_
        rw [hidle.calls] at hcalls
        exact absurd hcalls (by simp)
      have hnow : env.nowMs ≤ i64 (v.merge.timeOfLastProgressMs + o.mergeProgressTimeoutMs) := by
        have hlow := htimely.1.1
        rw [htime, i64_eq ⟨by omega, htimely.2⟩]
        omega
      exact .inl (congrArg Worked.merge (settle_of_progress hnone hnow))

/-! ## The calls made -/

/-- The calls made are those that the state tells of. -/
structure Ledger (s : ReplayMerge) : Prop where
  errorless : s.Errorless
  live : s.times .addLive = if s.isLiveAdded then 1 else 0
  running : s.state ≠ .merged → s.state ≠ .closed → s.times .removeReplay = 0
  merged : s.state = .merged → s.times .removeReplay = 1
  closed : s.state = .closed →
    s.times .removeReplay ≤ 1 ∧ (s.isAeronClosed = false → s.times .removeReplay = 1)

theorem state_of_open (h : s.isDone = false) : s.state ≠ .merged ∧ s.state ≠ .closed := by
  constructor <;> intro hstate <;> simp [isDone, hstate] at h

theorem Ledger.of_running (herr : s.Errorless)
    (hlive : s.times .addLive = if s.isLiveAdded then 1 else 0)
    (hstate : s.state ≠ .merged ∧ s.state ≠ .closed) (hremoved : s.times .removeReplay = 0) : Ledger s :=
  ⟨herr, hlive, fun _ _ => hremoved, fun h => absurd h hstate.1, fun h => absurd h hstate.2⟩

theorem times_append {call : DestinationCall} (h : t.calls = s.calls ++ [call])
    (purpose : Purpose) : t.times purpose = s.times purpose + if call.purpose = purpose then 1 else 0 := by
  simp only [times, h, List.countP_append, List.countP_cons, List.countP_nil, decide_eq_true_eq, zero_add]

theorem times_of_calls (h : t.calls = s.calls) (purpose : Purpose) :
    t.times purpose = s.times purpose := by
  rw [times, h, times]

/-- A turn keeps the ledger, also if the merge then fails. -/
theorem Ledger.turn {s v : ReplayMerge} (hs : Ledger s) (hopen : s.isDone = false) (hv : v.Errorless)
    (h : Turn env s v) : Ledger v ∧ (v.isDone = false → Ledger (v.setState .failed)) := by
  have hremoved := hs.running (state_of_open hopen).1 (state_of_open hopen).2
  cases h with
  | quiet hcalls hlive hdone =>
    have hadded : v.times .addLive = if v.isLiveAdded then 1 else 0 := by
      rw [times_of_calls hcalls, hlive, hs.live]
    have hkept : v.times .removeReplay = 0 := (times_of_calls hcalls _).trans hremoved
    exact ⟨.of_running hv hadded (state_of_open hdone) hkept,
      fun _ => .of_running hv hadded ⟨nofun, nofun⟩ hkept⟩
  | adds response hlive _ _ hcalls hadded hdone =>
    have honce : v.times .addLive = if v.isLiveAdded then 1 else 0 := by
      rw [times_append hcalls, hs.live, hlive, hadded]
      rfl
    have hkept : v.times .removeReplay = 0 := by
      rw [times_append hcalls, hremoved]
      rfl
    exact ⟨.of_running hv honce (state_of_open hdone) hkept,
      fun _ => .of_running hv honce ⟨nofun, nofun⟩ hkept⟩
  | merges response hlive _ _ _ hcalls hadded hstate _ =>
    have honce : v.times .addLive = if v.isLiveAdded then 1 else 0 := by
      rw [times_append hcalls, hs.live, hlive, hadded]
      rfl
    have hone : v.times .removeReplay = 1 := by
      rw [times_append hcalls, hremoved]
      rfl
    refine ⟨⟨hv, honce, fun h => absurd hstate h, fun _ => hone, fun h => nomatch hstate.symm.trans h⟩, ?_⟩
    exact fun hopen => absurd hstate (state_of_open hopen).1

theorem Ledger.close (hs : Ledger s) : Ledger (s.close o env) := by
  by_cases hstate : s.state = .closed
  · rw [close_of_closed hstate]
    exact hs
  · have hcloses := @close_closes s o env hstate
    have hnotmerged : (s.close o env).state ≠ .merged := by
      rw [hcloses.state]
      intro hmerged
      cases hmerged
    have herr : (s.close o env).Errorless := by
      rw [Errorless, hcloses.control]
      exact hs.errorless
    by_cases hkept : s.isAeronClosed = true ∨ s.state = .merged
    · have hcalls := hcloses.calls.trans (if_pos hkept)
      refine ⟨herr, ?_, fun _ h => absurd hcloses.state h, fun h => absurd h hnotmerged, fun _ => ?_⟩
      · rw [times_of_calls hcalls, hcloses.isLiveAdded, hs.live]
      · rw [times_of_calls hcalls, hcloses.isAeronClosed]
        by_cases hmerged : s.state = .merged
        · exact ⟨(hs.merged hmerged).le, fun _ => hs.merged hmerged⟩
        · rw [hs.running hmerged hstate, hkept.resolve_right hmerged]
          exact ⟨Nat.zero_le _, fun h => absurd h.symm Bool.false_ne_true⟩
    · have hcalls := hcloses.calls.trans (if_neg hkept)
      have hone : (s.close o env).times .removeReplay = 1 := by
        rw [times_append hcalls, hs.running (fun h => hkept (.inr h)) hstate]
        rfl
      refine ⟨herr, ?_, fun _ h => absurd hcloses.state h, fun h => absurd h hnotmerged,
        fun _ => ⟨hone.le, fun _ => hone⟩⟩
      rw [times_append hcalls, hcloses.isLiveAdded, hs.live]
      rfl

theorem Ledger.closeAeron (hs : Ledger s) : Ledger { s with isAeronClosed := true } :=
  ⟨hs.errorless, hs.live, hs.running, hs.merged, fun h => ⟨(hs.closed h).1, nofun⟩⟩

theorem Ledger.step (ht : 0 ≤ o.mergeProgressTimeoutMs) (hs : Ledger s)
    (htimely : Timely o s a) (h : step o s a = some t) : Ledger t := by
  cases a with
  | doWork env =>
    have herr : t.Errorless := step_errorless hs.errorless h
    have hreceived : Ledger (s.received env) := ⟨hs.errorless, hs.live, hs.running, hs.merged, hs.closed⟩
    obtain ⟨w, hw, rfl⟩ := step_doWork h
    rcases doWork_turn ht htimely hs.errorless hw with ⟨_, hsame⟩ | ⟨hopen, v, hturn, hkept | ⟨hfailed, hdone⟩⟩
    · rw [hsame]
      exact hs
    · rw [hkept] at herr ⊢
      exact (hreceived.turn hopen herr hturn).1
    · have hv : v.Errorless := by
        rw [hfailed] at herr
        exact herr
      rw [hfailed]
      exact (hreceived.turn hopen hv hturn).2 hdone
  | close env =>
    cases h
    exact hs.close
  | closeAeron =>
    cases h
    exact hs.closeAeron

theorem ledger_of_reachable (ht : 0 ≤ o.mergeProgressTimeoutMs)
    (h : ((system o).guard (Timely o)).Reachable s) : Ledger s := by
  refine h.invariant ?_ fun s a t hs hn => hs.step ht hn.1 hn.2
  rintro s ⟨control, nowMs, link, hcontrol, rfl⟩
  refine .of_running hcontrol rfl ?_ rfl
  simp only [new, call]
  split <;> decide

/-! ## Correlation ids -/

/-- A correlation id is awaited for one request at a time, and no longer than the state lasts. -/
structure Awaits (s t : ReplayMerge) : Prop where
  forgets : t.state ≠ s.state → t.activeCorrelationId = nullValue
  one : t.activeCorrelationId = s.activeCorrelationId ∨ t.activeCorrelationId = nullValue ∨
    ∃ request, t.requests = s.requests ++ [request] ∧ t.activeCorrelationId = request.correlationId ∧
      (s.activeCorrelationId = nullValue ∨ ∃ response, t.uses = s.uses ++ [⟨response, s.activeCorrelationId⟩])

theorem Awaits.of_null (h : t.activeCorrelationId = nullValue) : Awaits s t :=
  ⟨fun _ => h, .inr (.inl h)⟩

theorem Awaits.of_same (hstate : t.state = s.state)
    (h : t.activeCorrelationId = s.activeCorrelationId) : Awaits s t :=
  ⟨fun hne => absurd hstate hne, .inl h⟩

theorem Effect.awaits (h : Effect o env s t) : Awaits s t := by
  cases h with
  | idle hidle =>
    cases hidle
    exact .of_same rfl rfl
  | resolves | catchesUp => exact .of_null rfl
  | asks request hnull _ hidle =>
    cases hidle
    exact ⟨fun hne => absurd rfl hne, .inr (.inr ⟨request, rfl, rfl, .inl hnull⟩)⟩
  | answers response _ _ hanswered =>
    cases hanswered with
    | unknown _ hidle =>
      cases hidle
      exact .of_null rfl
    | unknownAsked request _ hidle =>
      cases hidle
      exact ⟨fun hne => absurd rfl hne, .inr (.inr ⟨request, rfl, rfl, .inr ⟨response, rfl⟩⟩)⟩
    | target | started => exact .of_null rfl
    | joins _ =>
      refine .of_null ?_
      rcases join_cases ((s.afterPoll.taken response).positioned response.relevantId) with h | ⟨_, _, h⟩ |
        ⟨_, _, _, h⟩ <;> rw [h] <;> rfl

theorem step_awaits (herr : s.Errorless) (h : step o s a = some t) :
    Awaits s t := by
  cases a with
  | doWork env =>
    obtain ⟨w, hw, rfl⟩ := step_doWork h
    rcases doWork_cases herr hw with ⟨_, rfl⟩ | ⟨_, v, hv, rfl⟩
    · exact .of_same rfl rfl
    · rcases @settle_cases o env v with hsettle | hsettle <;> rw [hsettle]
      · have hawaits := hv.1.awaits
        exact ⟨hawaits.forgets, hawaits.one⟩
      · exact .of_null rfl
  | close env =>
    cases h
    by_cases hstate : s.state = .closed
    · rw [close_of_closed hstate]
      exact .of_same rfl rfl
    · exact .of_null (close_closes hstate).activeCorrelationId
  | closeAeron =>
    cases h
    exact .of_same rfl rfl

/-! ## Safety -/

/-- How often the destinations were changed. -/
structure Safe (s : ReplayMerge) : Prop where
  addedOnce : s.times .addLive ≤ 1
  removedOnce : s.times .removeReplay ≤ 1
  merged : s.state = .merged → s.times .removeReplay = 1
  closed : s.state = .closed → s.isAeronClosed = false → s.times .removeReplay = 1

/-- What a step is careful about. The position that it compares to is that of the response it takes. -/
structure Careful (s : ReplayMerge) (a : Action) (t : ReplayMerge) : Prop where
  adds : t.times .addLive ≠ s.times .addLive → ∃ env response, a = .doWork env ∧
    t.uses = s.uses ++ [⟨response, s.activeCorrelationId⟩] ∧
    response.relevantId - env.image.position ≤ min (env.image.termBufferLength / 4) liveAddMaxWindow
  merges : t.state = .merged → s.state ≠ .merged → ∃ env response, a = .doWork env ∧ s.times .addLive = 1 ∧
    t.uses = s.uses ++ [⟨response, s.activeCorrelationId⟩] ∧
    response.relevantId - env.image.position ≤ replayRemoveThreshold ∧ 2 ≤ env.image.activeTransportCount
  awaits : Awaits s t
  rests : ∀ env, a = .doWork env → s.isDone = true → t = s

theorem Ledger.safe (h : Ledger s) : Safe s := by
  refine ⟨?_, ?_, h.merged, fun hclosed => (h.closed hclosed).2⟩
  · rw [h.live]
    split <;> omega
  · by_cases hmerged : s.state = .merged
    · exact (h.merged hmerged).le
    · by_cases hclosed : s.state = .closed
      · exact (h.closed hclosed).1
      · exact (h.running hmerged hclosed).le.trans (Nat.zero_le 1)

theorem Ledger.careful_doWork (ht : 0 ≤ o.mergeProgressTimeoutMs) (hs : Ledger s)
    (htimely : Timely o s (.doWork env)) (h : ReplayMerge.step o s (.doWork env) = some t) :
    Careful s (.doWork env) t := by
  have hawaits := step_awaits hs.errorless h
  obtain ⟨w, hw, rfl⟩ := step_doWork h
  rcases doWork_turn ht htimely hs.errorless hw with ⟨_, hsame⟩ | ⟨hopen, v, hturn, hmerge⟩
  · rw [hsame] at hawaits ⊢
    exact ⟨fun h => absurd rfl h, fun h hne => absurd h hne, hawaits, fun _ _ _ => rfl⟩
  · -- the calls and the uses of `v` are those of the merge after the step
    have hcalls : w.merge.calls = v.calls := by
      rcases hmerge with h | ⟨h, _⟩ <;> simp only [h, setState]
    have huses : w.merge.uses = v.uses := by
      rcases hmerge with h | ⟨h, _⟩ <;> simp only [h, setState]
    have hmerged : w.merge.state = .merged → v.state = .merged := by
      rcases hmerge with h | ⟨h, _⟩ <;> rw [h]
      · exact id
      · intro hfailed
        cases hfailed
    refine ⟨fun hadds => ?_, fun hstate _ => ?_, hawaits, fun _ _ hdone => ?_⟩
    · rw [times_of_calls hcalls] at hadds
      cases hturn with
      | quiet hsame _ _ => exact absurd (times_of_calls hsame .addLive) hadds
      | adds response _ hwindow htaken _ _ _ => exact ⟨env, response, rfl, huses.trans htaken, hwindow⟩
      | merges response _ _ _ _ hremoved _ _ _ => exact absurd (times_append hremoved .addLive) hadds
    · cases hturn with
      | quiet _ _ hdone | adds _ _ _ _ _ _ hdone => exact absurd (hmerged hstate) (state_of_open hdone).1
      | merges response hlive hreached htransports htaken _ _ _ _ =>
        refine ⟨env, response, rfl, ?_, huses.trans htaken, hreached, htransports⟩
        have hadded : s.isLiveAdded = true := hlive
        rw [hs.live, hadded]
        rfl
    · cases hopen.symm.trans hdone

theorem Ledger.careful (ht : 0 ≤ o.mergeProgressTimeoutMs) (hs : Ledger s)
    (htimely : Timely o s a) (h : ReplayMerge.step o s a = some t) : Careful s a t := by
  have hawaits := step_awaits hs.errorless h
  cases a with
  | doWork env => exact hs.careful_doWork ht htimely h
  | close env =>
    have hledger := hs.step ht htimely h
    have hnone : ∀ env', Action.close env = .doWork env' → s.isDone = true → s.close o env = s := by
      intro _ h
      cases h
    cases h
    by_cases hstate : s.state = .closed
    · rw [close_of_closed hstate]
      exact ⟨fun h => absurd rfl h, fun h hne => absurd h hne, .of_same rfl rfl, fun _ _ _ => rfl⟩
    · have hcloses := @close_closes s o env hstate
      have hclosed : (s.close o env).state ≠ .merged := by
        rw [hcloses.state]
        nofun
      refine ⟨fun hadds => ?_, fun h => absurd h hclosed, hawaits, hnone⟩
      rw [hledger.live, hs.live, hcloses.isLiveAdded] at hadds
      exact absurd rfl hadds
  | closeAeron =>
    cases h
    refine ⟨fun h => absurd rfl h, fun h hne => absurd h hne, hawaits, fun _ h => ?_⟩
    cases h

/-- With a timeout that is not negative and that no clock reading overflows with, every state that is reached
is safe and every step from it careful. -/
theorem replay_merge_safe (ht : 0 ≤ o.mergeProgressTimeoutMs) {s : ReplayMerge}
    (h : ((system o).guard (Timely o)).Reachable s) :
    Safe s ∧ ∀ a t, Timely o s a → (system o).next s a t → Careful s a t :=
  ⟨(ledger_of_reachable ht h).safe, fun _ _ htimely hn => (ledger_of_reachable ht h).careful ht htimely hn⟩

instance (o : MergeOptions) (s : ReplayMerge) : (a : Action) → Decidable (Timely o s a)
  | .doWork env =>
    inferInstanceAs (Decidable ((-9223372036854775808 ≤ env.nowMs ∧ env.nowMs < 9223372036854775808) ∧
      env.nowMs + o.mergeProgressTimeoutMs < 9223372036854775808))
  | .close .. | .closeAeron => .isTrue trivial

/-- A merge of recording 5 whose replay destination has its port. -/
def sample : MergeOptions where
  sessionId := 7
  recordingId := 5
  startPosition := 0
  mergeProgressTimeoutMs := 1000
  registrationID := 3
  streamID := 10
  replayDestination := "aeron:udp?endpoint=localhost:20"
  liveDestination := "aeron:udp?endpoint=localhost:30"
  replayEndpoint := "localhost:20".toList

/-- A call at time 100 that makes the next request with `correlationId`, while the image is at 4096. -/
def calm (correlationId : Int) (arrived : List ControlFragment) : Env where
  nowMs := 100
  arrived := arrived
  correlationId := correlationId
  takesRequest := true
  isArchiveConnected := true
  resolvedEndpoint := []
  isConnected := true
  hasImage := fun _ => true
  image := ⟨4096, false, 65536, 2, by decide⟩
  link := ⟨false, true, true⟩

/-- A response of the archive's session that reports a position. -/
def reports (correlationId : Int) : ControlFragment := .controlResponse ⟨7, correlationId, 4096, .OK, by decide⟩

def sampleStart : ReplayMerge := new sample ⟨.empty, []⟩ 100 ⟨false, true, true⟩

theorem sampleStart_started : Started sample sampleStart := ⟨_, _, _, rfl, rfl⟩

/-- The calls until the first live join, and those from there to the merge. -/
def sampleJoin : List Action :=
  [.doWork (calm 1 []), .doWork (calm 2 [.other, reports 1]), .doWork (calm 2 []), .doWork (calm 3 [reports 2]),
    .doWork (calm 3 []), .doWork (calm 3 []), .doWork (calm 4 [reports 3])]

def sampleMerge : List Action := [.doWork (calm 4 []), .doWork (calm 4 []), .doWork (calm 5 [reports 4])]

/-- A merge that went all the way, then was closed. -/
theorem replay_merge_safe_closed : ∃ s, ((system sample).guard (Timely sample)).Reachable s ∧
    s.state = .closed ∧ s.isLiveAdded = true ∧ Safe s ∧
    ∀ a t, Timely sample s a → (system sample).next s a t → Careful s a t := by
  obtain ⟨s, hs, hclosed⟩ := System.exists_reachable_guard (Started sample) (step sample) (Timely sample)
    sampleStart_started (sampleJoin ++ sampleMerge ++ [.close (calm 6 [])])
    (fun s => decide (s.state = .closed ∧ s.isLiveAdded = true)) (by decide +kernel)
  obtain ⟨hstate, hlive⟩ := of_decide_eq_true hclosed
  obtain ⟨hsafe, hcareful⟩ := replay_merge_safe (by decide) hs
  exact ⟨s, hs, hstate, hlive, hsafe, hcareful⟩

end AeronGo.Archive.ReplayMerge
