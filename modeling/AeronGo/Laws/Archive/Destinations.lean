import AeronGo.Laws.Archive.Merging

/-!
# Destination changes that were issued

`attemptLiveJoin` drops the errors of `AddDestination` and `RemoveDestination` (and the proxy already dropped the one
of `AddRcvDestination`), so it goes on as if the command had been written. What it believes is right if and only if
each `DoWork` that changes a destination has its command taken. What the driver makes of a command that it has taken
is left open.
-/

namespace AeronGo.Archive.ReplayMerge

open Machine Atomic Driver

variable {o : MergeOptions} {env : Env}

/-- A command of some purpose was written. -/
def wrote (s : ReplayMerge) (purpose : Purpose) : Prop := ⟨purpose, true⟩ ∈ s.calls

/-- What the merge believes of its destinations was written to the driver. -/
structure Justified (s : ReplayMerge) : Prop where
  live : s.isLiveAdded = true → s.wrote .addLive
  merged : s.state = .merged → s.wrote .addLive ∧ s.wrote .removeReplay

/-- The merge has come to a recorded position that it changes a destination at. -/
def joins (s : ReplayMerge) (env : Env) (position : Int) : Prop :=
  position ≠ recordingPositionNull ∧ ((s.positioned position).shouldAddLiveDestination env = true ∨
    (s.positioned position).shouldStopAndRemoveReplay env = true)

/-- A `DoWork` changes a destination: the merge attempts to join and has an image, and the position that it asked for is
answered. -/
def changes (s : ReplayMerge) (env : Env) : Prop :=
  s.state = .attemptLiveJoin ∧ s.activeCorrelationId ≠ nullValue ∧ s.hasImage = true ∧
    ∃ response ∈ (s.received env).answer, s.joins env response.relevantId

/-- A call that changes a destination has its command taken. -/
def Taken (s : ReplayMerge) : Action → Prop
  | .doWork env => s.changes env → takes env.link
  | _ => True

variable {purpose : Purpose} {s t : ReplayMerge} {w : Worked}

/-! ## The calls that change a destination -/

theorem join_calls_iff (s : ReplayMerge) : (s.join o env).calls ≠ s.calls ↔
    s.hasImage = true ∧ (s.shouldAddLiveDestination env = true ∨ s.shouldStopAndRemoveReplay env = true) := by
  unfold join
  split
  next himage =>
    split
    next hadd =>
      refine ⟨fun _ => ⟨himage, .inl hadd⟩, fun _ => ?_⟩
      simp only [setState, addLiveDestination_calls, ne_eq, List.append_right_eq_self, List.cons_ne_nil, not_false_eq_true]
    next hadd =>
      split
      next hremove =>
        refine ⟨fun _ => ⟨himage, .inr hremove⟩, fun _ => ?_⟩
        simp only [setState, stopReplay_calls, removeReplayDestination_calls, ne_eq, List.append_right_eq_self,
          List.cons_ne_nil, not_false_eq_true]
      next hremove => exact ⟨fun h => absurd rfl h, fun h => absurd h.2 (not_or.mpr ⟨hadd, hremove⟩)⟩
  next himage => exact ⟨fun h => absurd rfl h, fun h => absurd h.1 himage⟩

/-- While the merge does not await a position to join at, no work changes a destination. -/
theorem Effect.calls_of_not_joining (h : Effect o env s t)
    (hnot : ¬(s.state = .attemptLiveJoin ∧ s.activeCorrelationId ≠ nullValue)) : t.calls = s.calls := by
  cases h with
  | idle hidle | resolves _ _ hidle | catchesUp _ hidle | asks _ _ _ hidle =>
    cases hidle
    rfl
  | answers response hactive _ hanswered =>
    cases hanswered with
    | unknown _ hidle | unknownAsked _ _ hidle | target _ hidle | started _ hidle =>
      cases hidle
      rfl
    | joins hstate => exact absurd ⟨hstate, hactive⟩ hnot

/-- A state's work changes a destination exactly where the code's tests say so. -/
theorem work_calls_iff (herr : s.Errorless) (h : s.work o env = .ok w) : w.merge.calls ≠ s.calls ↔
    s.state = .attemptLiveJoin ∧ s.activeCorrelationId ≠ nullValue ∧ s.hasImage = true ∧
      ∃ response ∈ s.answer, s.joins env response.relevantId := by
  by_cases hjoining : s.state = .attemptLiveJoin ∧ s.activeCorrelationId ≠ nullValue
  · rw [work_awaiting (by rw [hjoining.1]; rfl) hjoining.2 herr] at h
    simp only [hjoining, ne_eq, not_false_eq_true, true_and]
    cases hanswer : s.answer with
    | none =>
      rw [hanswer] at h
      cases h
      refine ⟨fun h => absurd rfl h, fun ⟨_, _, hmem, _⟩ => ?_⟩
      cases hmem
    | some response =>
      have hstate : s.afterPoll.state = .attemptLiveJoin := hjoining.1
      simp only [hanswer, Option.isSome_some, if_true, onAnswer, hstate, onLivePosition,
        polledRelevantId_eq (answer_some hanswer).1, ok_bind] at h
      simp only [Option.mem_def, Option.some.injEq, exists_eq_left', joins]
      split at h
      next hnull =>
        have hsame : w.merge.calls = s.calls := by
          split at h <;> cases h
          next hawait =>
            simp only [await] at hawait
            split at hawait <;> cases hawait
            rfl
          next => rfl
        exact ⟨fun h => absurd hsame h, fun h => absurd hnull.symm h.2.1⟩
      next hnull =>
        cases h
        have hcalls := @join_calls_iff o env ((s.afterPoll.taken response).positioned response.relevantId)
        exact hcalls.trans ⟨fun h => ⟨h.1, Ne.symm hnull, h.2⟩, fun h => ⟨h.1, h.2.2⟩⟩
  · have hsame := (work_works herr h).1.calls_of_not_joining hjoining
    exact ⟨fun h => absurd hsame h, fun h => absurd ⟨h.1, h.2.1⟩ hjoining⟩

theorem doWork_calls_iff (herr : s.Errorless) (h : s.doWork o env = .ok w) :
    w.merge.calls ≠ s.calls ↔ s.changes env := by
  unfold doWork at h
  split at h
  next hdone =>
    cases h
    refine ⟨fun h => absurd rfl h, fun h => absurd hdone ?_⟩
    rw [isDone, h.1]
    decide
  next =>
    obtain ⟨v, hv, hrest⟩ := ok_of_bind h
    cases hrest
    have hcalls : (settle o env v).merge.calls = v.merge.calls := by
      rcases @settle_cases o env v with hsettle | hsettle <;> rw [hsettle]
      rfl
    rw [hcalls]
    exact work_calls_iff (s := s.received env) herr hv

/-! ## What the merge believes -/

theorem wrote_append {written : Bool}
    (h : t.calls = s.calls ++ [⟨purpose, written⟩]) (hnone : s.times purpose = 0) :
    t.wrote purpose ↔ written = true := by
  have hnot : ¬ s.wrote purpose := by
    intro hmem
    exact absurd (decide_eq_true rfl) (List.countP_eq_zero.mp hnone _ hmem)
  simp only [wrote] at hnot ⊢
  rw [h, List.mem_append, List.mem_singleton, DestinationCall.mk.injEq]
  constructor
  · intro hwrote
    exact (hwrote.resolve_left hnot).2.symm
  · intro hwritten
    exact .inr ⟨rfl, hwritten.symm⟩

theorem wrote_mono {call : DestinationCall}
    (h : t.calls = s.calls ++ [call]) (hs : s.wrote purpose) : t.wrote purpose := by
  rw [wrote, h]
  exact List.mem_append_left _ hs

theorem wrote_of_taken (h : t.calls = s.calls ++ [⟨purpose, true⟩]) :
    t.wrote purpose := by
  rw [wrote, h]
  exact List.mem_append_right _ (List.mem_singleton.mpr rfl)

theorem Justified.of_calls (hs : Justified s) (hcalls : t.calls = s.calls)
    (hlive : t.isLiveAdded = s.isLiveAdded) (hstate : t.state ≠ .merged) : Justified t := by
  refine ⟨fun h => ?_, fun h => absurd h hstate⟩
  rw [wrote, hcalls]
  exact hs.live (hlive.symm.trans h)

/-- A turn whose command is taken leaves a justified merge. -/
theorem Justified.turn {s v : ReplayMerge} (hs : Justified s) (h : Turn env s v)
    (htaken : v.calls ≠ s.calls → takes env.link = true) : Justified v := by
  cases h with
  | quiet hcalls hlive hdone => exact hs.of_calls hcalls hlive (state_of_open hdone).1
  | adds response _ _ _ hcalls _ hdone =>
    have htakes := htaken (by rw [hcalls]; simp)
    rw [htakes] at hcalls
    exact ⟨fun _ => wrote_of_taken hcalls, fun h => absurd h (state_of_open hdone).1⟩
  | merges response hlive _ _ _ hcalls _ _ _ =>
    have htakes := htaken (by rw [hcalls]; simp)
    rw [htakes] at hcalls
    have hadded : v.wrote .addLive := wrote_mono hcalls (hs.live hlive)
    exact ⟨fun _ => hadded, fun _ => ⟨hadded, wrote_of_taken hcalls⟩⟩

theorem Justified.setFailed {v : ReplayMerge} (hv : Justified v) : Justified (v.setState .failed) :=
  hv.of_calls rfl rfl nofun

theorem Justified.close (hs : Justified s) : Justified (s.close o env) := by
  by_cases hstate : s.state = .closed
  · rw [close_of_closed hstate]
    exact hs
  · have hcloses := @close_closes s o env hstate
    have hopen : (s.close o env).state ≠ .merged := by
      rw [hcloses.state]
      nofun
    by_cases hkept : s.isAeronClosed = true ∨ s.state = .merged
    · exact hs.of_calls (hcloses.calls.trans (if_pos hkept)) hcloses.isLiveAdded hopen
    · refine ⟨fun h => ?_, fun h => absurd h hopen⟩
      exact wrote_mono (hcloses.calls.trans (if_neg hkept)) (hs.live (hcloses.isLiveAdded.symm.trans h))

theorem Justified.step {a : Action} (herr : s.Errorless) (hs : Justified s)
    (htaken : Taken s a) (h : step o s a = some t) : Justified t := by
  cases a with
  | doWork env =>
    obtain ⟨w, hw, rfl⟩ := step_doWork h
    have hchanges := doWork_calls_iff herr hw
    rcases doWork_cases herr hw with ⟨_, rfl⟩ | ⟨hopen, v, hv, rfl⟩
    · exact hs
    · have hreceived : Justified (s.received env) := ⟨hs.live, hs.merged⟩
      have hturn : Turn env (s.received env) v.merge := hv.1.turn (s := s.received env) hopen
      have hcalls : (settle o env v).merge.calls = v.merge.calls := by
        rcases @settle_cases o env v with hsettle | hsettle <;> rw [hsettle]
        rfl
      have hjustified := hreceived.turn hturn fun hne =>
        htaken (hchanges.mp fun h => hne (hcalls.symm.trans h))
      rcases @settle_cases o env v with hsettle | hsettle <;> rw [hsettle]
      · exact hjustified
      · exact hjustified.setFailed
  | close env =>
    cases h
    exact hs.close
  | closeAeron =>
    cases h
    exact ⟨hs.live, hs.merged⟩

theorem justified_of_started (h : Started o s) : Justified s := by
  obtain ⟨control, nowMs, link, _, rfl⟩ := h
  refine ⟨nofun, fun hmerged => ?_⟩
  simp only [new, call] at hmerged
  split at hmerged <;> cases hmerged

theorem justified_of_reachable (h : ((system o).guard Taken).Reachable s) : Justified s := by
  refine h.invariant_of_reachable (fun s (hs : Started o s) => justified_of_started hs) fun s a t hreach hs hn => ?_
  exact hs.step (errorless_of_reachable hreach.of_guard) hn.1 hn.2

/-- A step that leaves a justified merge had its command taken. -/
theorem taken_of_justified {a : Action} (ht : 0 ≤ o.mergeProgressTimeoutMs) (hs : Ledger s)
    (htimely : Timely o s a) (h : step o s a = some t) (hjustified : Justified t) : Taken s a := by
  cases a with
  | doWork env =>
    intro hchanges
    obtain ⟨w, hw, rfl⟩ := step_doWork h
    have hcalls := (doWork_calls_iff hs.errorless hw).mpr hchanges
    rcases doWork_turn ht htimely hs.errorless hw with ⟨_, hsame⟩ | ⟨hopen, v, hturn, hmerge⟩
    · exact absurd (congrArg calls hsame) hcalls
    · have hkept : w.merge.calls = v.calls ∧ w.merge.isLiveAdded = v.isLiveAdded := by
        rcases hmerge with h | ⟨h, _⟩ <;> simp only [h, setState, and_self]
      have hremoved := hs.running (state_of_open hopen).1 (state_of_open hopen).2
      cases hturn with
      | quiet hquiet _ _ => exact absurd (hkept.1.trans hquiet) hcalls
      | adds response hlive _ _ hadds hadded _ =>
        have hnone : s.times .addLive = 0 := by
          have hnot : s.isLiveAdded = false := hlive
          rw [hs.live, hnot]
          rfl
        exact (wrote_append (hkept.1.trans hadds) hnone).mp (hjustified.live (hkept.2.trans hadded))
      | merges response _ _ _ _ hremoves _ hstate _ =>
        have hmerged : w.merge.state = .merged := by
          rcases hmerge with h | ⟨_, hdone⟩
          · rw [h]
            exact hstate
          · exact absurd hstate (state_of_open hdone).1
        exact (wrote_append (hkept.1.trans hremoves) hremoved).mp (hjustified.merged hmerged).2
  | close env => trivial
  | closeAeron => trivial

/-- In every run whose destination changes have their commands taken the merge is justified in what it
believes, and no step that drops a command leaves it so. -/
theorem destinations_justified :
    (∀ s, ((system o).guard Taken).Reachable s → Justified s) ∧
    (0 ≤ o.mergeProgressTimeoutMs → ∀ s a t, ((system o).guard (Timely o)).Reachable s → Justified s →
      Timely o s a → (system o).next s a t → (Justified t ↔ Taken s a)) := by
  refine ⟨fun s => justified_of_reachable, fun ht s a t hs hjustified htimely hn => ?_⟩
  have hledger := ledger_of_reachable ht hs
  exact ⟨taken_of_justified ht hledger htimely hn, fun htaken => hjustified.step hledger.errorless htaken hn⟩

instance (s : ReplayMerge) (env : Env) (position : Int) : Decidable (s.joins env position) :=
  inferInstanceAs (Decidable (_ ∧ _))

instance (s : ReplayMerge) (env : Env) : Decidable (s.changes env) := inferInstanceAs (Decidable (_ ∧ _ ∧ _ ∧ _))

instance (s : ReplayMerge) : (a : Action) → Decidable (Taken s a)
  | .doWork env => inferInstanceAs (Decidable (s.changes env → takes env.link = true))
  | .close .. | .closeAeron => .isTrue trivial

/-- A merge all of whose commands were taken, and the step that adds its live destination. -/
theorem destinations_justified_merged :
    (∃ s, ((system sample).guard Taken).Reachable s ∧ s.state = .merged ∧ Justified s) ∧
    ∃ s t, ((system sample).guard (Timely sample)).Reachable s ∧ Justified s ∧
      (system sample).next s (.doWork (calm 4 [reports 3])) t ∧ t.isLiveAdded = true ∧
      (Justified t ↔ Taken s (.doWork (calm 4 [reports 3]))) := by
  constructor
  · obtain ⟨s, hs, hmerged⟩ := System.exists_reachable_guard (Started sample) (step sample) Taken
      sampleStart_started (sampleJoin ++ sampleMerge) (fun s => decide (s.state = .merged)) (by decide +kernel)
    exact ⟨s, hs, of_decide_eq_true hmerged, destinations_justified.1 s hs⟩
  · obtain ⟨s, hs, hq⟩ := System.exists_reachable_guard (Started sample) (step sample) (Timely sample)
      sampleStart_started (sampleJoin.take 6)
      (fun s => decide (s.isLiveAdded = false ∧ s.state ≠ .merged ∧
        (step sample s (.doWork (calm 4 [reports 3]))).any (·.isLiveAdded) = true)) (by decide +kernel)
    obtain ⟨hlive, hstate, hstep⟩ := of_decide_eq_true hq
    obtain ⟨t, ht, hadded⟩ := (Option.any_eq_true _ _).mp hstep
    have hjustified : Justified s := ⟨fun h => (nomatch hlive.symm.trans h), fun h => absurd h hstate⟩
    have htimely : Timely sample s (.doWork (calm 4 [reports 3])) := ⟨⟨by decide, by decide⟩, by decide⟩
    exact ⟨s, t, hs, hjustified, ht, hadded,
      destinations_justified.2 (by decide) s _ t hs hjustified htimely ht⟩

/-- The same call, with the command ring full. -/
def full : Action → Action
  | .doWork env => .doWork { env with link := { env.link with ringTakes := false } }
  | a => a

/-- No command but that of the replay destination was written, and the merge believes it has merged. -/
theorem merged_without_commands : ∃ s, ((system sample).guard (Timely sample)).Reachable s ∧
    s.state = .merged ∧ s.isLiveAdded = true ∧ ¬ Justified s ∧
    s.ring = [.addRcvDestination 3 "aeron:udp?endpoint=localhost:20"] := by
  obtain ⟨s, hs, hq⟩ := System.exists_reachable_guard (Started sample) (step sample) (Timely sample)
    sampleStart_started ((sampleJoin ++ sampleMerge).map full)
    (fun s => decide (s.state = .merged ∧ s.isLiveAdded = true ∧ (⟨.addLive, true⟩ : DestinationCall) ∉ s.calls ∧
      s.ring = [.addRcvDestination 3 "aeron:udp?endpoint=localhost:20"])) (by decide +kernel)
  obtain ⟨hstate, hlive, hnot, hring⟩ := of_decide_eq_true hq
  exact ⟨s, hs, hstate, hlive, fun h => hnot (h.live hlive), hring⟩

end AeronGo.Archive.ReplayMerge
