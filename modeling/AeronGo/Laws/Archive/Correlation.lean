import AeronGo.Laws.Archive.Messages
import AeronGo.Laws.Archive.Polling

/-!
# `PollForResponse` finds its response

The fragments on the image bring messages, one after the other (`Brings`). A poll that ends in the middle
of a message leaves what it has in the builder of the call's assembler, so that the fragments to come
still bring the same messages. As long as the awaited response is not among those that were brought, the
client only hears signals; the fragment that completes the response ends the poll, so nothing behind it
is read.
-/

namespace AeronGo.Archive.Pollers

open LogBuffer Codecs Atomic
open Image (ControlledPollAction)

/-! ## Messages in fragments -/

/-- The fragments complete the messages, the first one together with the builder, and the last fragment completes
the last message. -/
inductive Brings : List UInt8 → List Piece → List (List UInt8) → Prop
  | done {b : List UInt8} : Brings b [] []
  | part {b : List UInt8} {p : Piece} {pieces : List Piece} {m : List UInt8} {ms : List (List UInt8)} :
      completes b p.slot = none → Brings (nextBuilder b p.slot) pieces (m :: ms) → Brings b (p :: pieces) (m :: ms)
  | message {b : List UInt8} {p : Piece} {pieces : List Piece} {m : List UInt8} {ms : List (List UInt8)} :
      completes b p.slot = some m → Brings (nextBuilder b p.slot) pieces ms → Brings b (p :: pieces) (m :: ms)

theorem completes_of_assemble {b b' : List UInt8} {s : Slot} {delivered : List (List UInt8)}
    (h : assemble (b, []) s = (b', delivered)) : (completes b s).toList = delivered ∧ nextBuilder b s = b' := by
  obtain ⟨hb, hd⟩ := Prod.mk.inj h
  exact ⟨hd, hb⟩

/-- Middle pieces and a last one, behind a builder that is not empty. -/
theorem brings_rest {middle : List Piece} {last : Piece} (hmiddle : ∀ p ∈ middle, p.flags &&& unfragmented = 0)
    (hlast : last.flags &&& unfragmented = endFrag) {pieces : List Piece} {ms : List (List UInt8)}
    (hrest : ∀ b, Brings b pieces ms) (b : List UInt8) (hb : b ≠ []) :
    Brings b (middle ++ last :: pieces) ((b ++ bytesOf (middle ++ [last])) :: ms) := by
  induction middle generalizing b with
  | nil =>
    obtain ⟨hcompletes, _⟩ := completes_of_assemble (assemble_end hlast hb [] last.payload)
    refine .message ?_ (hrest _)
    rw [List.nil_append, bytesOf, List.flatMap_singleton]
    exact Option.toList_eq_singleton_iff.mp hcompletes
  | cons p middle ih =>
    obtain ⟨hcompletes, hnext⟩ :=
      completes_of_assemble (assemble_middle (hmiddle p List.mem_cons_self) hb [] p.payload)
    refine .part (Option.toList_eq_nil_iff.mp hcompletes) ?_
    have htail := ih (fun q hq => hmiddle q (List.mem_cons_of_mem p hq)) (b ++ p.payload)
      (fun hnil => hb (List.append_eq_nil_iff.mp hnil).1)
    rw [Piece.slot, hnext]
    rw [List.append_assoc] at htail
    exact htail

/-- The pieces of a message bring it, whatever is in the builder. -/
theorem brings_message {m : List Piece} (hm : IsMessage m) (hassembled : isAssembled m = true) {pieces : List Piece}
    {ms : List (List UInt8)} (hrest : ∀ b, Brings b pieces ms) (b : List UInt8) :
    Brings b (m ++ pieces) (bytesOf m :: ms) := by
  cases hm with
  | @whole p hp =>
    obtain ⟨hcompletes, _⟩ := completes_of_assemble (assemble_unfragmented hp (b, []) p.payload)
    refine .message ?_ (hrest _)
    rw [bytesOf, List.flatMap_singleton]
    exact Option.toList_eq_singleton_iff.mp hcompletes
  | @parts first last middle hfirst hmiddle hlast =>
    obtain ⟨hcompletes, hnext⟩ := completes_of_assemble (assemble_begin hfirst (b, []) first.payload)
    have hpayload : first.payload ≠ [] := by
      cases middle <;> simpa [isAssembled] using hassembled
    refine .part (Option.toList_eq_nil_iff.mp hcompletes) ?_
    rw [Piece.slot, hnext]
    change Brings first.payload ((middle ++ [last]) ++ pieces) _
    rw [List.append_assoc]
    exact brings_rest hmiddle hlast hrest first.payload hpayload

theorem brings_stream {stream : List (List Piece)} (h : ∀ m ∈ stream, IsMessage m ∧ isAssembled m = true) (b : List UInt8) :
    Brings b stream.flatten (stream.map bytesOf) := by
  induction stream generalizing b with
  | nil => exact .done
  | cons m stream ih =>
    have hm := h m List.mem_cons_self
    exact brings_message hm.1 hm.2 (ih fun m' hm' => h m' (List.mem_cons_of_mem m hm')) b

/-! ## What the client hears -/

/-- The message is the response to a request. -/
def Message.answers (sessionID correlationID : Int) : Message → Prop
  | .controlResponse r => r.controlSessionId = sessionID ∧ r.correlationId = correlationID
  | _ => False

/-- The signal in some bytes. -/
def signalIn (rangeChecking : Bool) (bytes : List UInt8) : Option RecordingSignalEvent :=
  match decoded rangeChecking bytes with
  | some (.recordingSignalEvent e) => some e
  | _ => none

variable (options : Options)

/-- The listener is called with the signals among messages. -/
def Control.hear (control : Control) (ms : List (List UInt8)) : Control :=
  if options.recordingSignalListener then
    { control with signals := control.signals ++ ms.filterMap (signalIn options.rangeChecking) }
  else control

theorem Control.hear_append (control : Control) (ms ms' : List (List UInt8)) :
    (control.hear options ms).hear options ms' = control.hear options (ms ++ ms') := by
  unfold Control.hear
  split
  · rw [List.filterMap_append, List.append_assoc]
  · rfl

@[simp] theorem Control.hear_nil (control : Control) : control.hear options [] = control := by
  unfold Control.hear
  split
  · rw [List.filterMap_nil, List.append_nil]
  · rfl

@[simp] theorem Control.hear_results (control : Control) (ms : List (List UInt8)) :
    (control.hear options ms).results = control.results := by
  unfold Control.hear
  split <;> rfl

@[simp] theorem Control.hear_sessionID (control : Control) (ms : List (List UInt8)) :
    (control.hear options ms).sessionID = control.sessionID := by
  unfold Control.hear
  split <;> rfl

theorem Control.clear_hear (control : Control) (ms : List (List UInt8)) :
    (control.hear options ms).clear = control.clear.hear options ms := by
  unfold Control.hear
  split <;> rfl

/-- A call and the response it awaits. -/
structure Call where
  options : Options
  correlations : Int → Bool
  sessionID : Int
  correlationID : Int
  target : List UInt8
  response : Codecs.ControlResponse

/-- The messages before the response are of other requests. -/
structure Awaited (call : Call) (before : List (List UInt8)) : Prop where
  registered : call.correlations call.correlationID = true
  foreign : ∀ m ∈ before, ∃ message, decoded call.options.rangeChecking m = some message ∧
    ¬message.answers call.sessionID call.correlationID
  target : decoded call.options.rangeChecking call.target = some (.controlResponse call.response)
  answers : (Message.controlResponse call.response).answers call.sessionID call.correlationID

/-- No response of the session is polled yet. -/
structure Call.Open (call : Call) (control : Control) : Prop where
  incomplete : control.results.isPollComplete = false
  session : control.sessionID = call.sessionID

variable {options} {call : Call} {before : List (List UInt8)} {control : Control}

theorem Call.Open.hear (h : call.Open control) (ms : List (List UInt8)) : call.Open (control.hear options ms) where
  incomplete := by
    rw [Control.hear_results]
    exact h.incomplete
  session := by
    rw [Control.hear_sessionID]
    exact h.session

namespace Awaited

variable (h : Awaited call before) (hopen : call.Open control)

include h hopen

/-- A message before the response is heard. -/
theorem handler_before {m : List UInt8} (hm : m ∈ before) :
    controlFragmentHandler call.options call.correlations call.correlationID control m =
      (.continue, control.hear call.options [m]) := by
  obtain ⟨message, hdecoded, hforeign⟩ := h.foreign m hm
  have hquiet (hnone : signalIn call.options.rangeChecking m = none) : control.hear call.options [m] = control := by
    simp [Control.hear, hnone]
  rw [controlFragmentHandler_decoded call.options h.registered control hdecoded hopen.incomplete]
  cases message with
  | controlResponse r =>
    have hnot : ¬(r.controlSessionId = control.sessionID ∧ r.correlationId = call.correlationID) := by
      rw [hopen.session]
      exact hforeign
    simp only [if_neg hnot]
    rw [hquiet (by simp only [signalIn, hdecoded])]
  | challenge _ | recordingDescriptor _ | recordingSubscriptionDescriptor _ | other _ =>
    rw [hquiet (by simp only [signalIn, hdecoded])]
  | recordingSignalEvent e =>
    have hsignal : signalIn call.options.rangeChecking m = some e := by simp only [signalIn, hdecoded]
    simp [Control.hear, Control.signal, hsignal]

theorem handler_target :
    controlFragmentHandler call.options call.correlations call.correlationID control call.target =
      (.break, control.complete call.response) := by
  have hanswers : call.response.controlSessionId = control.sessionID ∧
      call.response.correlationId = call.correlationID := by
    rw [hopen.session]
    exact h.answers
  rw [controlFragmentHandler_decoded call.options h.registered control h.target hopen.incomplete]
  simp only [if_pos hanswers]

end Awaited

/-! ## One poll -/

/-- The handler of the call. -/
abbrev Call.handler (call : Call) : Handler (List UInt8 × Control) :=
  assembling (controlFragmentHandler call.options call.correlations call.correlationID)

namespace Awaited

variable (h : Awaited call before)

include h

theorem tail {m : List UInt8} {before' : List (List UInt8)} (hbefore : before = m :: before') : Awaited call before' :=
  { h with foreign := fun m' hm' => h.foreign m' (by rw [hbefore]; exact List.mem_cons_of_mem m hm') }

/-- **One fragment**: either it brings nothing or a message that is heard, and the rest is still to come, or it
completes the response and is the last one. -/
theorem fragment (hopen : call.Open control) {b : List UInt8} {p : Piece} {own : List Piece}
    (hbrings : Brings b (p :: own) (before ++ [call.target])) :
    (∃ heard before', before = heard ++ before' ∧ Awaited call before' ∧
      call.handler (b, control) p.flags p.payload =
        (.continue, nextBuilder b p.slot, control.hear call.options heard) ∧
      Brings (nextBuilder b p.slot) own (before' ++ [call.target])) ∨
    before = [] ∧ own = [] ∧
      ∃ b', call.handler (b, control) p.flags p.payload = (.break, b', control.complete call.response) := by
  rw [Call.handler, assembling_eq, ← Piece.slot]
  generalize hms : before ++ [call.target] = ms at hbrings
  cases hbrings with
  | part hnone hrest =>
    refine .inl ⟨[], before, rfl, h, ?_, ?_⟩
    · rw [hnone, Control.hear_nil]
    · rw [hms]
      exact hrest
  | @message _ _ _ m ms hsome hrest =>
    rw [hsome]
    cases hb : before with
    | nil =>
      rw [hb] at hms
      obtain ⟨rfl, rfl⟩ := List.cons.inj hms
      refine .inr ⟨rfl, ?_, ?_⟩
      · cases hrest
        rfl
      · simp only [h.handler_target hopen, reduceCtorEq, if_false]
        exact ⟨_, rfl⟩
    | cons m' before' =>
      rw [hb] at hms
      obtain ⟨rfl, rfl⟩ := List.cons.inj hms
      have hmem : m' ∈ before := by
        rw [hb]
        exact List.mem_cons_self
      refine .inl ⟨[m'], before', rfl, h.tail hb, ?_, hrest⟩
      simp only [h.handler_before hopen hmem, reduceCtorEq, if_false]

end Awaited

/-- **The fragments of a poll that goes on**: they are the first ones of those awaited, but not all. -/
theorem ran_brings {b b' : List UInt8} {control control' : Control} {passed : List Piece}
    (hran : Ran call.handler (b, control) passed (b', control')) (h : Awaited call before) (hopen : call.Open control)
    {own fs : List Piece} (hbrings : Brings b own (before ++ [call.target])) (hown : own <+: passed ++ fs) :
    ∃ own' heard before', own = passed ++ own' ∧ own' ≠ [] ∧ before = heard ++ before' ∧ Awaited call before' ∧
      control' = control.hear call.options heard ∧ Brings b' own' (before' ++ [call.target]) := by
  induction passed generalizing b control before own with
  | nil =>
    cases hran
    refine ⟨own, [], before, rfl, ?_, rfl, h, (Control.hear_nil _ _).symm, hbrings⟩
    rintro rfl
    generalize hms : before ++ [call.target] = ms at hbrings
    cases hbrings
    exact List.append_ne_nil_of_right_ne_nil before (List.cons_ne_nil call.target []) hms
  | cons p passed ih =>
    obtain ⟨st₁, action, hp, hon, hrest⟩ : ∃ st₁ action,
        call.handler (b, control) p.flags p.payload = (action, st₁) ∧
        (action ≠ .abort ∧ action ≠ .break) ∧
        Ran call.handler st₁ passed (b', control') := by
      cases hran with
      | cons hp hon hrest => exact ⟨_, _, hp, hon, hrest⟩
    cases own with
    | nil =>
      generalize hms : before ++ [call.target] = ms at hbrings
      cases hbrings
      exact absurd hms (List.append_ne_nil_of_right_ne_nil before (List.cons_ne_nil call.target []))
    | cons q own =>
      obtain ⟨rfl, hown'⟩ := List.cons_prefix_cons.mp hown
      rcases h.fragment hopen hbrings with ⟨heard, before₁, hbefore, h₁, hstep, hbrings₁⟩ | ⟨_, _, b₁, hstep⟩
      · rw [hstep] at hp
        obtain ⟨rfl, rfl⟩ := Prod.mk.inj hp
        obtain ⟨own', heard', before', rfl, hne, rfl, h', rfl, hbrings'⟩ :=
          ih hrest h₁ (hopen.hear heard) hbrings₁ hown'
        refine ⟨own', heard ++ heard', before', rfl, hne, ?_, h', Control.hear_append _ _ _ _, hbrings'⟩
        rw [hbefore, List.append_assoc]
      · rw [hstep] at hp
        exact absurd (Prod.mk.inj hp).1.symm hon.2

/-- The fragment behind those does not end the poll, unless it completes the response. -/
theorem next_brings {b b₁ : List UInt8} {control control₁ : Control} {passed : List Piece} {p : Piece}
    (hran : Ran call.handler (b, control) passed (b₁, control₁)) {action : ControlledPollAction}
    {st' : List UInt8 × Control} (hp : call.handler (b₁, control₁) p.flags p.payload = (action, st'))
    (h : Awaited call before) (hopen : call.Open control) {own fs : List Piece}
    (hbrings : Brings b own (before ++ [call.target])) (hown : own <+: passed ++ p :: fs) :
    action = .continue ∨
      action = .break ∧ own = passed ++ [p] ∧ st'.2 = (control.hear call.options before).complete call.response := by
  obtain ⟨own', heard, before', rfl, hne, rfl, h', rfl, hbrings'⟩ := ran_brings hran h hopen hbrings hown
  cases own' with
  | nil => exact absurd rfl hne
  | cons q own'' =>
    obtain ⟨rfl, _⟩ := List.cons_prefix_cons.mp ((List.prefix_append_right_inj passed).mp hown)
    rcases h'.fragment (hopen.hear heard) hbrings' with ⟨_, _, _, _, hstep, _⟩ | ⟨rfl, rfl, _, hstep⟩
    · rw [hp] at hstep
      exact .inl (Prod.mk.inj hstep).1
    · rw [hp] at hstep
      obtain ⟨rfl, rfl⟩ := Prod.mk.inj hstep
      refine .inr ⟨rfl, rfl, ?_⟩
      rw [List.append_nil]

/-- **One poll**: it brings some of the messages before the response, or them all and the response. -/
theorem poll_awaited (h : Awaited call before) (hopen : call.Open control) {b : List UInt8} {own future : List Piece}
    (hbrings : Brings b own (before ++ [call.target])) {items : List Item} (hown : own <+: fragments items ++ future) :
    ∃ count rest b' control', controlledPoll call.handler 10 (b, control) items = (count, (b', control'), rest) ∧
      ((∃ passed own' heard before', own = passed ++ own' ∧ own' ≠ [] ∧ Passes items passed rest ∧
          before = heard ++ before' ∧ Awaited call before' ∧ control' = control.hear call.options heard ∧
          Brings b' own' (before' ++ [call.target])) ∨
        control' = (control.hear call.options before).complete call.response ∧
          fragments items = own ++ fragments rest) := by
  obtain ⟨passed, rest, ⟨b', control'⟩, hpoll, hpolls⟩ :=
    controlledPoll_polls call.handler (show (0 : Int) < 10 by decide) (b, control) items
  refine ⟨_, rest, b', control', hpoll, ?_⟩
  cases hpolls with
  | ran hran hpasses =>
    rw [hpasses.fragments_eq, List.append_assoc] at hown
    obtain ⟨own', heard, before', rfl, hne, hbefore, h', hcontrol, hbrings'⟩ :=
      ran_brings hran h hopen hbrings hown
    exact .inl ⟨passed, own', heard, before', rfl, hne, hpasses, hbefore, h', hcontrol, hbrings'⟩
  | @broke p passed _ st₁ _ hran hbreak hfragments =>
    rw [hfragments, List.append_assoc] at hown
    rcases next_brings hran hbreak h hopen hbrings hown with hon | ⟨_, rfl, hcontrol⟩
    · cases hon
    · refine .inr ⟨hcontrol, ?_⟩
      rw [hfragments, List.append_assoc]
      rfl
  | @aborted p passed rest st₁ _ hran habort hfragments =>
    rw [hfragments, List.append_assoc] at hown
    rcases next_brings hran habort h hopen hbrings hown with hon | ⟨hbreak, _, _⟩
    · cases hon
    · cases hbreak

/-! ## The loop -/

section Loop

variable (options) (correlations : Int → Bool) (correlationID : Int) (turns : Nat → Turn)

/-- The polls of a call, without the checks between them: what the poll of each turn leaves. -/
def polled (control : Control) (items : List Item) : Nat → (List UInt8 × Control) × List Item
  | 0 => (pollAssembling (controlFragmentHandler options correlations correlationID) 10 [] control
      (items ++ (turns 0).arrived)).2
  | i + 1 =>
    let ((builder, control'), rest) := polled control items i
    (pollAssembling (controlFragmentHandler options correlations correlationID) 10 builder control'
      (rest ++ (turns (i + 1)).arrived)).2

/-- Until the response is polled, no time-out fires and the subscription is not closed. -/
def Undisturbed (control : Control) (items : List Item) : Prop :=
  ∀ i, (∀ j ≤ i, (polled options correlations correlationID turns control items j).1.2.results.isPollComplete = false) →
    (turns i).isClosed = false ∧ (turns i).timedOut = false

theorem Control.isPollComplete_of_clear (h : control.clear = control) : control.results.isPollComplete = false := by
  rw [← h]
  rfl

variable {turns}

/-- The polls of the call. -/
abbrev Call.polled (call : Call) (turns : Nat → Turn) (control : Control) (items : List Item) (i : Nat) :
    (List UInt8 × Control) × List Item :=
  Pollers.polled call.options call.correlations call.correlationID turns control items i

/-- What a poll of the call leaves. -/
abbrev Call.poll (call : Call) (b : List UInt8) (control : Control) (items : List Item) :
    Nat × (List UInt8 × Control) × List Item :=
  pollAssembling (controlFragmentHandler call.options call.correlations call.correlationID) 10 b control items

/-- The loop of a call that began with `control₀` and `items₀` returns the response, from a turn on in which the
fragments that bring it are still to be read. -/
def Call.LoopAnswers (call : Call) (turns : Nat → Turn) (control₀ : Control) (items₀ : List Item) (i : Nat)
    (items : List Item) (own : List Piece) : Prop :=
  ∀ (before : List (List UInt8)) (b : List UInt8) (control : Control),
    Awaited call before → control.clear = control → control.sessionID = call.sessionID →
    Brings b own (before ++ [call.target]) →
    call.polled turns control₀ items₀ i = (call.poll b control (items ++ (turns i).arrived)).2 →
    (∀ j < i, (call.polled turns control₀ items₀ j).1.2.results.isPollComplete = false) →
    ∃ fuel returned k,
      responseLoop call.options call.correlations turns call.correlationID fuel i b control items = .ok returned ∧
      returned.answer = answerOf call.response ∧
      returned.control = (control.hear call.options before).complete call.response ∧
      returned.turns = i + k ∧ fragments (items ++ arrivals turns i k) = own ++ fragments returned.items

/-- **The loop of `PollForResponse`**, by induction over its polls. -/
theorem responseLoop_answers (call : Call) {control₀ : Control} {items₀ : List Item}
    (hcalm : Undisturbed call.options call.correlations call.correlationID turns control₀ items₀) (k i : Nat)
    (items : List Item) (own : List Piece) (hown : own ≠ []) (harrive : own <+: fragments (items ++ arrivals turns i k)) :
    call.LoopAnswers turns control₀ items₀ i items own := by
  refine polling_induction turns (P := call.LoopAnswers turns control₀ items₀) ?_ k i items own hown harrive
  intro i items own future _ hprefix ih before b control h hclear hsession hbrings hpolled hincomplete
  have hopen : call.Open control := ⟨Control.isPollComplete_of_clear hclear, hsession⟩
  obtain ⟨count, rest, b', control', hpoll, hcases⟩ :=
    poll_awaited h hopen hbrings hprefix
  have hturn : call.poll b control (items ++ (turns i).arrived) = (count, (b', control'), rest) := by
    rw [Call.poll, pollAssembling, hclear]
    exact hpoll
  rw [hturn] at hpolled
  rcases hcases with ⟨passed, own', heard, before', rfl, hne, hpasses, rfl, h', rfl, hbrings'⟩ | ⟨rfl, hfragments⟩
  · -- the response is not here yet: the next turn goes on
    have hnot : call.Open (control.hear call.options heard) := hopen.hear heard
    have hclear' : (control.hear call.options heard).clear = control.hear call.options heard := by
      rw [Control.clear_hear, hclear]
    have hincomplete' : ∀ j ≤ i, (call.polled turns control₀ items₀ j).1.2.results.isPollComplete = false := by
      intro j hj
      rcases Nat.lt_or_eq_of_le hj with hlt | rfl
      · exact hincomplete j hlt
      · rw [hpolled]
        exact hnot.incomplete
    obtain ⟨hclosed, htime⟩ := hcalm i hincomplete'
    obtain ⟨fuel, returned, k, hloop, hanswer, hcontrol, hturns, hconsumed⟩ :=
      ih passed own' rest rfl hne hpasses before' b' (control.hear call.options heard) h' hclear' hnot.session
        hbrings' (by rw [Call.polled] at hpolled ⊢; rw [polled, hpolled])
        (fun j hj => hincomplete' j (Nat.le_of_lt_succ hj))
    refine ⟨fuel + 1, returned, k + 1, ?_, hanswer, ?_, by rw [hturns]; omega, ?_⟩
    · simp only [responseLoop, hturn, hnot.incomplete, hclosed, htime, Bool.false_eq_true, if_false]
      exact hloop
    · rw [hcontrol, Control.hear_append]
    · rw [arrivals, ← List.append_assoc, fragments_append, hpasses.fragments_eq, List.append_assoc, ← fragments_append,
        hconsumed, List.append_assoc]
  · refine ⟨1, ⟨answerOf call.response, _, rest, i + 1⟩, 1, ?_, rfl, rfl, rfl, ?_⟩
    · simp only [responseLoop, hturn, Control.complete, if_true]
    · rw [arrivals, arrivals, List.append_nil]
      exact hfragments

end Loop

/-! ## The call -/

/-- What a call comes to that was answered: the response's answer, everything up to the response consumed and nothing
behind it, and the signals before it heard, in order. Beside the results nothing else changes. -/
structure Correlated (options : Options) (turns : Nat → Turn) (control : Control) (items : List Item)
    (before : List (List Piece)) (target : List Piece) (response : Codecs.ControlResponse)
    (returned : Returned (Int × Option Text)) : Prop where
  relevantId : returned.answer.1 = response.relevantId
  error : returned.answer.2.isSome ↔ response.code ≠ .OK
  consumed : fragments (items ++ arrivals turns 0 returned.turns) =
    (before ++ [target]).flatten ++ fragments returned.items
  signals : returned.control.signals = control.signals ++ if options.recordingSignalListener then
    before.filterMap (fun m => signalIn options.rangeChecking (bytesOf m)) else []
  kept : returned.control =
    { control.complete response with signals := returned.control.signals }

theorem answerOf_error (response : Codecs.ControlResponse) : (answerOf response).2.isSome ↔ response.code ≠ .OK := by
  rw [answerOf]
  split
  next hcode => exact ⟨fun _ => hcode, fun _ => rfl⟩
  next hcode => exact ⟨nofun, fun hne => absurd hne hcode⟩

theorem Control.hear_eq (control : Control) (ms : List (List UInt8)) :
    control.hear options ms = { control with signals := control.signals ++
      if options.recordingSignalListener then ms.filterMap (signalIn options.rangeChecking) else [] } := by
  unfold Control.hear
  split
  · rfl
  · rw [List.append_nil]

/-- **`PollForResponse` returns the response to its request.** The messages before it are of any kind, each in one
fragment or in several of which the first one is not empty. -/
theorem pollForResponse_correlates (options : Options) (correlations : Int → Bool) (correlationID : Int)
    (hregistered : correlations correlationID = true) (turns : Nat → Turn) (control : Control) (items : List Item)
    (before : List (List Piece)) (target : List Piece) (response : Codecs.ControlResponse)
    (hmessages : ∀ m ∈ before ++ [target], IsMessage m ∧ isAssembled m = true)
    (hbefore : ∀ m ∈ before, ∃ message, decoded options.rangeChecking (bytesOf m) = some message ∧
      ¬message.answers control.sessionID correlationID)
    (htarget : decoded options.rangeChecking (bytesOf target) = some (.controlResponse response))
    (hanswers : (Message.controlResponse response).answers control.sessionID correlationID)
    (harrive : ∃ k, (before ++ [target]).flatten <+: fragments (items ++ arrivals turns 0 k))
    (hcalm : Undisturbed options correlations correlationID turns control items) :
    ∃ fuel returned, pollForResponse options correlations turns correlationID fuel control items = .ok returned ∧
      Correlated options turns control items before target response returned := by
  obtain ⟨k, harrive⟩ := harrive
  have hown : (before ++ [target]).flatten ≠ [] := by
    have htarget := hmessages target (List.mem_append_right before (List.mem_singleton_self target))
    have hne : target ≠ [] := by
      rintro rfl
      cases htarget.1
    rw [List.flatten_append, List.flatten_singleton]
    exact List.append_ne_nil_of_right_ne_nil _ hne
  let call : Call := ⟨options, correlations, control.sessionID, correlationID, bytesOf target, response⟩
  have hawaited : Awaited call (before.map bytesOf) := by
    refine ⟨hregistered, ?_, htarget, hanswers⟩
    intro m hm
    obtain ⟨pieces, hpieces, rfl⟩ := List.mem_map.mp hm
    exact hbefore pieces hpieces
  have hbrings := brings_stream hmessages []
  rw [List.map_append] at hbrings
  obtain ⟨fuel, returned, k', hloop, hanswer, hcontrol, hturns, hconsumed⟩ :=
    responseLoop_answers call hcalm k 0 items _ hown harrive (before.map bytesOf) [] control.clear hawaited rfl rfl hbrings rfl
      (fun j hj => absurd hj (Nat.not_lt_zero j))
  have hstart : pollForResponse options correlations turns correlationID fuel control items =
      responseLoop options correlations turns correlationID fuel 0 [] control.clear items := by
    cases fuel <;> rfl
  rw [Nat.zero_add] at hturns
  rw [Control.hear_eq, List.filterMap_map] at hcontrol
  refine ⟨fuel, returned, by rw [hstart, hloop], ?_⟩
  exact {
    relevantId := by
      rw [hanswer]
      rfl
    error := by
      rw [hanswer]
      exact answerOf_error response
    consumed := by
      rw [hturns]
      exact hconsumed
    signals := by
      rw [hcontrol]
      rfl
    kept := by
      rw [hcontrol]
      rfl }

/-- A signal and a failed response, both in two fragments, the signal across the end of a term. -/
def splitStream : List (List Piece) :=
  [[⟨beginFrag, (signalBytes 1 7 3 1).take 20⟩, ⟨endFrag, (signalBytes 1 7 3 1).drop 20⟩],
    [⟨beginFrag, (responseBytes 1 7 42 1 [110, 111]).take 30⟩, ⟨endFrag, (responseBytes 1 7 42 1 [110, 111]).drop 30⟩]]

def splitItems : List Item :=
  [.fragment beginFrag ((signalBytes 1 7 3 1).take 20), .padding, .termEnd,
    .fragment endFrag ((signalBytes 1 7 3 1).drop 20),
    .fragment beginFrag ((responseBytes 1 7 42 1 [110, 111]).take 30),
    .fragment endFrag ((responseBytes 1 7 42 1 [110, 111]).drop 30),
    .fragment unfragmented (responseBytes 1 8 43 0 [])]

theorem isMessage_pair {first last : Piece} (hfirst : first.flags &&& unfragmented = beginFrag)
    (hlast : last.flags &&& unfragmented = endFrag) : IsMessage [first, last] :=
  show IsMessage (first :: ([] ++ [last])) from .parts hfirst (fun _ hp => absurd hp List.not_mem_nil) hlast

theorem pollForResponse_correlates_split : ∃ fuel returned,
    pollForResponse .listening (· = 7) (fun _ => {}) 7 fuel (.connected 1) splitItems = .ok returned ∧
      Correlated .listening (fun _ => {}) (.connected 1) splitItems (splitStream.take 1) (splitStream.getD 1 [])
        ⟨1, 7, 42, 1, 0, [110, 111]⟩ returned := by
  refine pollForResponse_correlates .listening (· = 7) 7 rfl (fun _ => {}) (.connected 1) splitItems (splitStream.take 1)
    (splitStream.getD 1 []) ⟨1, 7, 42, 1, 0, [110, 111]⟩ ?_ ?_ ?_ ⟨rfl, rfl⟩ ⟨0, ?_⟩ ?_
  · intro m hm
    have hcases : m = splitStream.getD 0 [] ∨ m = splitStream.getD 1 [] := by
      simpa [splitStream] using hm
    rcases hcases with rfl | rfl
    · exact ⟨isMessage_pair rfl rfl, by decide +kernel⟩
    · exact ⟨isMessage_pair rfl rfl, by decide +kernel⟩
  · intro m hm
    obtain rfl : m = splitStream.getD 0 [] := by simpa [splitStream] using hm
    exact ⟨.recordingSignalEvent ⟨1, 7, 3, 0, 0, 1⟩, by decide +kernel, nofun⟩
  · decide +kernel
  · decide +kernel
  · exact fun _ _ => ⟨rfl, rfl⟩

end AeronGo.Archive.Pollers
