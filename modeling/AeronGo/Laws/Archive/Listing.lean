import AeronGo.Laws.Archive.Messages
import AeronGo.Laws.Archive.Polling

/-!
# Listings end with the archive's answer

What `PollForDescriptors` has collected depends only on the messages of the answer among those it has read: the
descriptors for its request, and the responses to it (`answersIn`). It ends when there are as many descriptors as
wanted, or at a response with `RECORDING_UNKNOWN`. `SUBSCRIPTION_UNKNOWN`, with which an archive ends a listing of
subscriptions, is passed over like any other response, so such a listing that comes up short waits for its time-out.
What an archive sends is not modelled: the laws take the messages as they come.
-/

namespace AeronGo.Archive.Pollers

open Machine LogBuffer Codecs Atomic
open Image (ControlledPollAction)

/-! ## What a message does to the results -/

/-- What `DescriptorFragmentHandler` makes of the results. -/
def absorb (sessionID correlationID : Int) (results : ControlResults) : Option Message → ControlResults
  | some (.recordingDescriptor d) =>
    if d.controlSessionId = sessionID ∧ d.correlationId = correlationID then
      { results with
        recordingDescriptors := results.recordingDescriptors ++ [d]
        fragmentsReceived := results.fragmentsReceived + 1 }
    else results
  | some (.recordingSubscriptionDescriptor d) =>
    if d.controlSessionId = sessionID ∧ d.correlationId = correlationID then
      { results with
        recordingSubscriptionDescriptors := results.recordingSubscriptionDescriptors ++ [d]
        fragmentsReceived := results.fragmentsReceived + 1 }
    else results
  | some (.controlResponse r) =>
    if r.controlSessionId = sessionID ∧ (r.correlationId = correlationID ∧ r.code = .RECORDING_UNKNOWN ∨ r.code = .ERROR)
    then { results with controlResponse := some r, isPollComplete := true }
    else results
  | _ => results

section Handler

variable (options : Options) {correlations : Int → Bool} {correlationID : Int}
  (hregistered : correlations correlationID = true) (control : Control) (bytes : List UInt8)

include hregistered

/-- Bytes that do not decode are at most reported. -/
theorem descriptorFragmentHandler_undecoded (h : decoded options.rangeChecking bytes = none) :
    (descriptorFragmentHandler options correlations correlationID control bytes).results = control.results ∧
      (descriptorFragmentHandler options correlations correlationID control bytes).sessionID = control.sessionID := by
  unfold descriptorFragmentHandler
  simp only [hregistered, not_true_eq_false, if_false]
  by_cases herror : (SbeGoMessageHeader.decode bytes).error.isSome
  · rw [if_pos herror]
    exact Control.reportDecode_results options _ _ control
  obtain ⟨hresponse, hdescriptor, hsubscription, hsignal⟩ :=
    undecoded rfl h (Option.not_isSome_iff_eq_none.mp herror)
  rw [if_neg herror]
  split
  next htemplate =>
    rw [if_pos (hdescriptor htemplate)]
    exact Control.reportDecode_results options _ _ control
  split
  next htemplate =>
    rw [if_pos (hsubscription htemplate)]
    exact Control.reportDecode_results options _ _ control
  split
  next htemplate =>
    rw [if_pos (hresponse htemplate)]
    exact Control.reportDecode_results options _ _ control
  split
  next htemplate =>
    rw [if_pos (hsignal htemplate)]
    exact Control.reportDecode_results options _ _ control
  · exact ⟨rfl, rfl⟩

/-- **What the handler does to the results**, whatever the bytes. -/
theorem descriptorFragmentHandler_results :
    (descriptorFragmentHandler options correlations correlationID control bytes).results =
        absorb control.sessionID correlationID control.results (decoded options.rangeChecking bytes) ∧
      (descriptorFragmentHandler options correlations correlationID control bytes).sessionID = control.sessionID := by
  cases hm : decoded options.rangeChecking bytes with
  | none => exact descriptorFragmentHandler_undecoded options hregistered control bytes hm
  | some m =>
    rw [descriptorFragmentHandler_decoded options hregistered control hm]
    cases m with
    | controlResponse r =>
      simp only [absorb]
      by_cases hsession : r.controlSessionId = control.sessionID
      · by_cases hunknown : r.correlationId = correlationID ∧ r.code = .RECORDING_UNKNOWN
        · rw [if_pos hsession, if_pos hunknown, if_pos ⟨hsession, .inl hunknown⟩]
          exact ⟨rfl, rfl⟩
        by_cases herror : r.code = .ERROR
        · rw [if_pos hsession, if_neg hunknown, if_pos herror, if_pos ⟨hsession, .inr herror⟩]
          exact ⟨rfl, rfl⟩
        · rw [if_pos hsession, if_neg hunknown, if_neg herror, if_neg (fun h => not_or.mpr ⟨hunknown, herror⟩ h.2)]
          exact ⟨rfl, rfl⟩
      · rw [if_neg hsession, if_neg (fun h => hsession h.1)]
        exact ⟨rfl, rfl⟩
    | challenge c | other t => exact ⟨rfl, rfl⟩
    | recordingDescriptor d | recordingSubscriptionDescriptor d =>
      simp only [absorb]
      split <;> exact ⟨rfl, rfl⟩
    | recordingSignalEvent e => exact Control.signal_results options e control

end Handler

/-! ## The answer to a request -/

/-- A descriptor for a request, or a response to it. -/
def Message.isFor (sessionID correlationID : Int) : Message → Bool
  | .controlResponse r => r.controlSessionId = sessionID ∧ r.correlationId = correlationID
  | .recordingDescriptor d => d.controlSessionId = sessionID ∧ d.correlationId = correlationID
  | .recordingSubscriptionDescriptor d => d.controlSessionId = sessionID ∧ d.correlationId = correlationID
  | _ => false

/-- A failed response of the own session, to whatever request. -/
def Message.isError (sessionID : Int) : Message → Bool
  | .controlResponse r => r.controlSessionId = sessionID ∧ r.code = .ERROR
  | _ => false

/-- The response that ends a listing of recordings. -/
def Message.isUnknown : Message → Bool
  | .controlResponse r => r.code = .RECORDING_UNKNOWN
  | _ => false

def Message.recording : Message → Option RecordingDescriptor
  | .recordingDescriptor d => some d
  | _ => none

def Message.subscription : Message → Option RecordingSubscriptionDescriptor
  | .recordingSubscriptionDescriptor d => some d
  | _ => none

/-- The messages for a request among unfragmented ones. -/
def answersIn (rangeChecking : Bool) (sessionID correlationID : Int) (pieces : List Piece) : List Message :=
  (pieces.filterMap fun p => decoded rangeChecking p.payload).filter (Message.isFor sessionID correlationID)

theorem answersIn_append (rangeChecking : Bool) (sessionID correlationID : Int) (xs ys : List Piece) :
    answersIn rangeChecking sessionID correlationID (xs ++ ys) =
      answersIn rangeChecking sessionID correlationID xs ++ answersIn rangeChecking sessionID correlationID ys := by
  rw [answersIn, List.filterMap_append, List.filter_append]
  rfl

/-- How results grow by messages for the request. -/
structure Grown (results results' : ControlResults) (ms : List Message) : Prop where
  recordings : results'.recordingDescriptors = results.recordingDescriptors ++ ms.filterMap Message.recording
  subscriptions : results'.recordingSubscriptionDescriptors =
    results.recordingSubscriptionDescriptors ++ ms.filterMap Message.subscription
  complete : results'.isPollComplete = (results.isPollComplete || ms.any Message.isUnknown)
  response : (∀ r, results.controlResponse = some r → r.code ≠ .ERROR) →
    ∀ r, results'.controlResponse = some r → r.code ≠ .ERROR

theorem Grown.refl (results : ControlResults) : Grown results results [] where
  recordings := (List.append_nil _).symm
  subscriptions := (List.append_nil _).symm
  complete := (Bool.or_false _).symm
  response := id

theorem Grown.trans {r₁ r₂ r₃ : ControlResults} {xs ys : List Message} (h : Grown r₁ r₂ xs) (h' : Grown r₂ r₃ ys) :
    Grown r₁ r₃ (xs ++ ys) where
  recordings := by rw [h'.recordings, h.recordings, List.filterMap_append, List.append_assoc]
  subscriptions := by rw [h'.subscriptions, h.subscriptions, List.filterMap_append, List.append_assoc]
  complete := by rw [h'.complete, h.complete, List.any_append, Bool.or_assoc]
  response := fun hr => h'.response (h.response hr)

/-- A message that is not a failed response grows the results by itself, if it is for the request. -/
theorem absorb_grown (sessionID correlationID : Int) (results : ControlResults) (m : Message)
    (hquiet : m.isError sessionID = false) :
    Grown results (absorb sessionID correlationID results (some m)) ([m].filter (Message.isFor sessionID correlationID)) := by
  cases m with
  | controlResponse r =>
    have hnoerror : ¬(r.controlSessionId = sessionID ∧ r.code = .ERROR) := by simpa [Message.isError] using hquiet
    by_cases hends : r.controlSessionId = sessionID ∧ r.correlationId = correlationID ∧ r.code = .RECORDING_UNKNOWN
    · rw [absorb, if_pos ⟨hends.1, .inl hends.2⟩, List.filter_cons_of_pos (by simp [Message.isFor, hends]), List.filter_nil]
      refine ⟨(List.append_nil _).symm, (List.append_nil _).symm, by simp [Message.isUnknown, hends], ?_⟩
      rintro _ x hx
      obtain rfl := Option.some.inj hx
      rw [hends.2.2]
      decide
    · have hneither : ¬(r.controlSessionId = sessionID ∧
          (r.correlationId = correlationID ∧ r.code = .RECORDING_UNKNOWN ∨ r.code = .ERROR)) := by
        rintro ⟨hsession, hunknown | hcode⟩
        · exact hends ⟨hsession, hunknown⟩
        · exact hnoerror ⟨hsession, hcode⟩
      rw [absorb, if_neg hneither, List.filter_singleton]
      cases hfor : Message.isFor sessionID correlationID (.controlResponse r) with
      | false => exact Grown.refl results
      | true =>
        simp only [Message.isFor, decide_eq_true_eq] at hfor
        refine ⟨(List.append_nil _).symm, (List.append_nil _).symm, ?_, id⟩
        simp [Message.isUnknown, show r.code ≠ .RECORDING_UNKNOWN from fun hcode => hends ⟨hfor.1, hfor.2, hcode⟩]
  | recordingDescriptor d =>
    simp only [absorb, List.filter_singleton, Message.isFor, cond_eq_ite, decide_eq_true_eq]
    split
    · exact ⟨rfl, (List.append_nil _).symm, (Bool.or_false _).symm, id⟩
    · exact Grown.refl results
  | recordingSubscriptionDescriptor d =>
    simp only [absorb, List.filter_singleton, Message.isFor, cond_eq_ite, decide_eq_true_eq]
    split
    · exact ⟨(List.append_nil _).symm, rfl, (Bool.or_false _).symm, id⟩
    · exact Grown.refl results
  | challenge c | recordingSignalEvent e | other t => exact Grown.refl results

/-! ## One poll -/

/-- The handler of the call. -/
abbrev descriptorHandler (options : Options) (correlations : Int → Bool) (correlationID : Int) : Handler Control :=
  always (descriptorFragmentHandler options correlations correlationID)

/-- No message is a failed response of the session. -/
def Quiet (rangeChecking : Bool) (sessionID : Int) (pieces : List Piece) : Prop :=
  ∀ p ∈ pieces, ∀ m, decoded rangeChecking p.payload = some m → m.isError sessionID = false

instance (rangeChecking : Bool) (sessionID : Int) (pieces : List Piece) : Decidable (Quiet rangeChecking sessionID pieces) :=
  decidable_of_iff (∀ p ∈ pieces, (decoded rangeChecking p.payload).any (Message.isError sessionID) = false) (by
    simp only [Quiet, Option.any_eq_false])

section Poll

variable {options : Options} {correlations : Int → Bool} {correlationID : Int}
  (hregistered : correlations correlationID = true)

include hregistered

/-- The fragments of a poll grow the results by what is for the request among them. -/
theorem ran_grown {control control' : Control} {passed : List Piece}
    (hran : Ran (descriptorHandler options correlations correlationID) control passed control')
    (hquiet : Quiet options.rangeChecking control.sessionID passed) :
    Grown control.results control'.results (answersIn options.rangeChecking control.sessionID correlationID passed) ∧
      control'.sessionID = control.sessionID := by
  induction hran with
  | nil => exact ⟨Grown.refl _, rfl⟩
  | @cons control control₁ _ p pieces action hp _ _ ih =>
    obtain ⟨_, rfl⟩ := Prod.mk.inj hp
    obtain ⟨hresults, hsession⟩ := descriptorFragmentHandler_results options hregistered control p.payload
    rw [hsession] at ih
    obtain ⟨hgrown, hsession'⟩ := ih (fun q hq => hquiet q (List.mem_cons_of_mem p hq))
    refine ⟨?_, hsession'.trans rfl⟩
    have hhead : Grown control.results (descriptorFragmentHandler options correlations correlationID control p.payload).results
        (answersIn options.rangeChecking control.sessionID correlationID [p]) := by
      rw [hresults]
      cases hm : decoded options.rangeChecking p.payload with
      | none =>
        simp only [answersIn, List.filterMap_cons, hm, List.filterMap_nil, List.filter_nil]
        exact Grown.refl _
      | some m =>
        simp only [answersIn, List.filterMap_cons, hm, List.filterMap_nil]
        exact absorb_grown _ _ _ m (hquiet p List.mem_cons_self m hm)
    have hsplit : answersIn options.rangeChecking control.sessionID correlationID (p :: pieces) =
        answersIn options.rangeChecking control.sessionID correlationID [p] ++
          answersIn options.rangeChecking control.sessionID correlationID pieces :=
      answersIn_append _ _ _ [p] pieces
    rw [hsplit]
    exact hhead.trans hgrown

/-- **One poll** that may read. -/
theorem poll_descriptors {fragmentLimit : Int} (hlimit : 0 < fragmentLimit) (control : Control) {items : List Item}
    (hquiet : Quiet options.rangeChecking control.sessionID (fragments items)) :
    ∃ count passed rest control', poll (descriptorHandler options correlations correlationID) fragmentLimit control items =
        (count, control', rest) ∧ Passes items passed rest ∧
      Grown control.clear.results control'.results
        (answersIn options.rangeChecking control.sessionID correlationID passed) ∧
      control'.sessionID = control.sessionID := by
  obtain ⟨passed, rest, control', hpoll, hpolls⟩ :=
    controlledPoll_polls (descriptorHandler options correlations correlationID) hlimit control.clear items
  refine ⟨passed.length, passed, rest, control', hpoll, ?_⟩
  cases hpolls with
  | ran hran hpasses =>
    rw [hpasses.fragments_eq] at hquiet
    obtain ⟨hgrown, hsession⟩ := ran_grown hregistered hran (fun p hp => hquiet p (List.mem_append_left _ hp))
    exact ⟨hpasses, hgrown, hsession⟩
  | broke _ hbreak => cases hbreak
  | aborted _ habort => cases habort

end Poll

/-! ## The requests -/

/-- The descriptors of both kinds among messages. -/
def descriptorCount (ms : List Message) : Nat :=
  (ms.filterMap Message.recording).length + (ms.filterMap Message.subscription).length

theorem descriptorCount_append (xs ys : List Message) :
    descriptorCount (xs ++ ys) = descriptorCount xs + descriptorCount ys := by
  simp only [descriptorCount, List.filterMap_append, List.length_append]
  omega

/-- The requests for descriptors. -/
inductive Listing where
  | recordings
  | recordingsForUri
  | subscriptions
deriving DecidableEq, Repr

namespace Listing

abbrev Descriptor : Listing → Type
  | recordings => RecordingDescriptor
  | recordingsForUri => RecordingDescriptor
  | subscriptions => RecordingSubscriptionDescriptor

/-- The code with which an archive says that there are no more descriptors. -/
def unknown : Listing → ControlResponseCode
  | recordings => .RECORDING_UNKNOWN
  | recordingsForUri => .RECORDING_UNKNOWN
  | subscriptions => .SUBSCRIPTION_UNKNOWN

def message : (l : Listing) → l.Descriptor → Message
  | recordings, d => .recordingDescriptor d
  | recordingsForUri, d => .recordingDescriptor d
  | subscriptions, d => .recordingSubscriptionDescriptor d

/-- The descriptors among messages. -/
def found : (l : Listing) → List Message → List l.Descriptor
  | recordings, ms => ms.filterMap Message.recording
  | recordingsForUri, ms => ms.filterMap Message.recording
  | subscriptions, ms => ms.filterMap Message.subscription

/-- The call once its request is out. -/
def run (options : Options) (correlations : Int → Bool) (turns : Nat → Turn) (correlationID wanted : Int) (fuel : Nat)
    (control : Control) (items : List Item) : (l : Listing) → Except Stop (Returned (Except Text (List l.Descriptor)))
  | recordings => listRecordings options correlations turns correlationID wanted fuel control items
  | recordingsForUri => listRecordingsForUri options correlations turns correlationID wanted fuel control items
  | subscriptions => listRecordingSubscriptions options correlations turns correlationID wanted fuel control items

variable (l : Listing)

/-- What an archive answers: as many descriptors as wanted, or fewer and its terminal response. -/
def Complete (wanted : Int) (ds : List l.Descriptor) : Option Codecs.ControlResponse → Prop
  | none => (ds.length : Int) = wanted
  | some r => (ds.length : Int) < wanted ∧ r.code = l.unknown

/-- The messages of an answer. -/
def answer (ds : List l.Descriptor) (terminal : Option Codecs.ControlResponse) : List Message :=
  ds.map l.message ++ terminal.toList.map .controlResponse

theorem found_message (d : l.Descriptor) : l.found [l.message d] = [d] := by cases l <;> rfl

theorem found_append (xs ys : List Message) : l.found (xs ++ ys) = l.found xs ++ l.found ys := by
  cases l <;> exact List.filterMap_append

theorem descriptorCount_message (d : l.Descriptor) : descriptorCount [l.message d] = 1 := by cases l <;> rfl

theorem isUnknown_message (d : l.Descriptor) : (l.message d).isUnknown = false := by cases l <;> rfl

/-- The descriptors of an answer, or of the first messages of one. -/
theorem found_descriptors (ds : List l.Descriptor) :
    l.found (ds.map l.message) = ds ∧ descriptorCount (ds.map l.message) = ds.length ∧
      (ds.map l.message).any Message.isUnknown = false := by
  induction ds with
  | nil => exact ⟨by cases l <;> rfl, rfl, rfl⟩
  | cons d ds ih =>
    obtain ⟨hfound, hcount, hunknown⟩ := ih
    have hsplit : (d :: ds).map l.message = [l.message d] ++ ds.map l.message := rfl
    refine ⟨?_, ?_, ?_⟩
    · rw [hsplit, found_append, found_message, hfound]
      rfl
    · rw [hsplit, descriptorCount_append, descriptorCount_message, hcount, List.length_cons, Nat.add_comm]
    · rw [hsplit, List.any_append, hunknown, List.any_cons, isUnknown_message]
      rfl

theorem found_terminal (r : Codecs.ControlResponse) :
    l.found [.controlResponse r] = [] ∧ descriptorCount [.controlResponse r] = 0 := by
  cases l <;> exact ⟨rfl, rfl⟩

/-- The first messages of an answer are some of its descriptors, or it is the whole. -/
theorem prefix_answer {ds : List l.Descriptor} {terminal : Option Codecs.ControlResponse} {ms : List Message}
    (h : ms <+: l.answer ds terminal) : (∃ ds', ds' <+: ds ∧ ms = ds'.map l.message) ∨ ms = l.answer ds terminal := by
  rcases List.prefix_or_prefix_of_prefix h (List.prefix_append _ _) with hpart | ⟨extra, rfl⟩
  · obtain ⟨ds', hds', rfl⟩ := List.prefix_map_iff.mp hpart
    exact .inl ⟨ds', hds', rfl⟩
  · have hextra := (List.prefix_append_right_inj _).mp h
    cases terminal with
    | none =>
      refine .inl ⟨ds, List.prefix_rfl, ?_⟩
      rw [List.prefix_nil.mp hextra, List.append_nil]
    | some r =>
      cases extra with
      | nil => exact .inl ⟨ds, List.prefix_rfl, List.append_nil _⟩
      | cons m extra =>
        refine .inr ?_
        obtain ⟨rfl, hnil⟩ := List.cons_prefix_cons.mp hextra
        rw [List.prefix_nil.mp hnil]
        rfl

variable {wanted : Int} {ds : List l.Descriptor} {terminal : Option Codecs.ControlResponse}

theorem found_answer : l.found (l.answer ds terminal) = ds ∧ descriptorCount (l.answer ds terminal) = ds.length := by
  obtain ⟨hfound, hcount, _⟩ := l.found_descriptors ds
  rw [answer, found_append, descriptorCount_append, hfound, hcount]
  cases terminal with
  | none => exact ⟨by cases l <;> exact List.append_nil _, rfl⟩
  | some r =>
    obtain ⟨hfound', hcount'⟩ := l.found_terminal r
    exact ⟨by rw [Option.toList_some, List.map_singleton, hfound', List.append_nil],
      by rw [Option.toList_some, List.map_singleton, hcount', Nat.add_zero]⟩

/-- The descriptors alone do not end a call that wants more. -/
theorem not_unknown_subscriptions {ds : List RecordingSubscriptionDescriptor} {r : Codecs.ControlResponse}
    (hr : r.code = .SUBSCRIPTION_UNKNOWN) : (subscriptions.answer ds (some r)).any Message.isUnknown = false := by
  rw [answer, List.any_append, (subscriptions.found_descriptors ds).2.2, Option.toList_some, List.map_singleton,
    List.any_cons, List.any_nil, Message.isUnknown, hr]
  rfl

theorem unknown_terminal {r : Codecs.ControlResponse} (hl : l ≠ .subscriptions) (hr : r.code = l.unknown) :
    (l.answer ds (some r)).any Message.isUnknown = true := by
  have hcode : r.code = .RECORDING_UNKNOWN := by
    cases l with
    | recordings | recordingsForUri => exact hr
    | subscriptions => exact absurd rfl hl
  rw [answer, List.any_append, Option.toList_some, List.map_singleton, List.any_cons, Message.isUnknown, hcode]
  simp

/-- **When a call ends**: with the whole answer, if its end is one that the call knows. -/
theorem ends_iff (h : l.Complete wanted ds terminal) {ms : List Message} (hms : ms <+: l.answer ds terminal) :
    (ms.any Message.isUnknown = true ∨ wanted ≤ descriptorCount ms) ↔
      ms = l.answer ds terminal ∧ (l ≠ .subscriptions ∨ terminal = none) := by
  constructor
  · intro hends
    rcases l.prefix_answer hms with ⟨ds', hds', rfl⟩ | rfl
    · obtain ⟨_, hcount, hunknown⟩ := l.found_descriptors ds'
      rw [hcount, hunknown] at hends
      have hwanted : wanted ≤ ds'.length := hends.resolve_left (by decide)
      have hle := hds'.length_le
      cases terminal with
      | none =>
        have hlength : (ds.length : Int) = wanted := h
        obtain rfl := hds'.eq_of_length (by omega)
        exact ⟨(List.append_nil _).symm, .inr rfl⟩
      | some r =>
        have hshort : (ds.length : Int) < wanted := h.1
        omega
    · refine ⟨rfl, ?_⟩
      cases terminal with
      | none => exact .inr rfl
      | some r =>
        refine .inl ?_
        rintro rfl
        rw [not_unknown_subscriptions h.2, subscriptions.found_answer.2] at hends
        have hshort : (ds.length : Int) < wanted := h.1
        rcases hends with hends | hends
        · cases hends
        · omega
  · rintro ⟨rfl, hknown⟩
    cases terminal with
    | none =>
      refine .inr ?_
      rw [l.found_answer.2]
      exact Int.le_of_eq h.symm
    | some r => exact .inl (l.unknown_terminal (hknown.resolve_right nofun) h.2)

end Listing

/-! ## The loop -/

variable {answer : List Message} {consumed : List Piece} {i : Nat}

/-- The stream carries the answer: it arrives within some turns, nothing else is for the request, and no failed
response of the session occurs. -/
structure Answering (options : Options) (correlations : Int → Bool) (turns : Nat → Turn) (sessionID correlationID : Int)
    (items₀ : List Item) (answer : List Message) : Prop where
  registered : correlations correlationID = true
  arrives : ∃ k₀, ∀ k, k₀ ≤ k →
    answersIn options.rangeChecking sessionID correlationID (fragments (items₀ ++ arrivals turns 0 k)) = answer
  quiet : ∀ k, Quiet options.rangeChecking sessionID (fragments (items₀ ++ arrivals turns 0 k))

/-- A call of `PollForDescriptors`: its request, and the stream from its first turn on. -/
structure Query where
  options : Options
  correlations : Int → Bool
  turns : Nat → Turn
  sessionID : Int
  correlationID : Int
  wanted : Int
  items : List Item

namespace Query

variable (q : Query)

/-- The messages for the request among fragments. -/
def answers (pieces : List Piece) : List Message :=
  answersIn q.options.rangeChecking q.sessionID q.correlationID pieces

theorem answers_append (xs ys : List Piece) : q.answers (xs ++ ys) = q.answers xs ++ q.answers ys :=
  answersIn_append _ _ _ xs ys

abbrev Answered (answer : List Message) : Prop :=
  Answering q.options q.correlations q.turns q.sessionID q.correlationID q.items answer

/-- The loop, with the count of the descriptors among the fragments consumed. -/
def loop (fuel i : Nat) (consumed : List Piece) (control : Control) (items : List Item) :
    Except Stop (Returned (Option Text)) :=
  descriptorsLoop q.options q.correlations q.turns q.correlationID q.wanted fuel i (descriptorCount (q.answers consumed))
    control items

end Query

section Loop

/-- The results are those of the fragments consumed before a turn. -/
structure Collected (q : Query) (i : Nat) (consumed : List Piece) (control : Control) (items : List Item) : Prop where
  split : ∀ k, fragments (q.items ++ arrivals q.turns 0 (i + k)) = consumed ++ fragments (items ++ arrivals q.turns i k)
  session : control.sessionID = q.sessionID
  recordings : control.results.recordingDescriptors = (q.answers consumed).filterMap Message.recording
  subscriptions : control.results.recordingSubscriptionDescriptors = (q.answers consumed).filterMap Message.subscription
  response : ∀ r, control.results.controlResponse = some r → r.code ≠ .ERROR

variable {q : Query} {control : Control} {items : List Item}

/-- What has been consumed of an answer is its first messages. -/
theorem Collected.begins (hstream : q.Answered answer) (h : Collected q i consumed control items) :
    q.answers consumed <+: answer := by
  obtain ⟨k₀, hk₀⟩ := hstream.arrives
  rw [← hk₀ (i + k₀) (Nat.le_add_left k₀ i), h.split k₀, answersIn_append]
  exact List.prefix_append _ _

/-- The count of the loop. -/
theorem Collected.count (h : Collected q i consumed control items) :
    ((control.results.recordingDescriptors.length + control.results.recordingSubscriptionDescriptors.length : Nat) : Int) =
      descriptorCount (q.answers consumed) := by
  rw [h.recordings, h.subscriptions]
  rfl

/-- A poll adds what it passes. -/
theorem Collected.next {consumed passed : List Piece} {control' : Control} {rest : List Item}
    (h : Collected q i consumed control items) (hpasses : Passes (items ++ (q.turns i).arrived) passed rest)
    (hgrown : Grown control.clear.results control'.results (q.answers passed)) (hsession : control'.sessionID = q.sessionID) :
    Collected q (i + 1) (consumed ++ passed) control' rest where
  split := by
    intro k
    have hrest : fragments (items ++ arrivals q.turns i (k + 1)) =
        passed ++ fragments (rest ++ arrivals q.turns (i + 1) k) := by
      rw [arrivals, ← List.append_assoc, fragments_append, hpasses.fragments_eq, List.append_assoc, ← fragments_append]
    rw [Nat.add_assoc, Nat.add_comm 1 k, h.split (k + 1), hrest, List.append_assoc]
  session := hsession
  recordings := by
    rw [hgrown.recordings, q.answers_append, List.filterMap_append]
    exact congrArg (· ++ _) h.recordings
  subscriptions := by
    rw [hgrown.subscriptions, q.answers_append, List.filterMap_append]
    exact congrArg (· ++ _) h.subscriptions
  response := hgrown.response nofun

/-- **One turn** of the loop, while the count is short. -/
theorem Collected.turn (hstream : q.Answered answer) (h : Collected q i consumed control items)
    (hincomplete : control.results.isPollComplete = false)
    (hshort : (descriptorCount (q.answers consumed) : Int) < q.wanted)
    (hcalm : (q.turns i).isClosed = false ∧ (q.turns i).timedOut = false) :
    ∃ passed rest control', Passes (items ++ (q.turns i).arrived) passed rest ∧
      Collected q (i + 1) (consumed ++ passed) control' rest ∧
      control'.results.isPollComplete = (q.answers passed).any Message.isUnknown ∧
      ∀ fuel, q.loop (fuel + 1) i consumed control items =
        if control'.results.isPollComplete = true ∨ q.wanted ≤ descriptorCount (q.answers (consumed ++ passed)) then
          .ok ⟨none, control', rest, i + 1⟩
        else q.loop fuel (i + 1) (consumed ++ passed) control' rest := by
  have hquiet : Quiet q.options.rangeChecking control.sessionID (fragments (items ++ (q.turns i).arrived)) := by
    intro p hp
    rw [h.session]
    refine hstream.quiet (i + 1) p ?_
    rw [h.split 1, arrivals, arrivals, List.append_nil]
    exact List.mem_append_right consumed hp
  obtain ⟨count, passed, rest, control', hpoll, hpasses, hgrown, hsession⟩ :=
    poll_descriptors hstream.registered (Int.sub_pos_of_lt hshort) control hquiet
  rw [h.session] at hgrown hsession
  have hnext := h.next hpasses hgrown hsession
  refine ⟨passed, rest, control', hpasses, hnext, by rw [hgrown.complete]; rfl, fun fuel => ?_⟩
  have hcount := hnext.count
  push_cast at hcount
  simp only [Query.loop, descriptorsLoop, hincomplete, Bool.false_eq_true, if_false, hpoll, hcount, hcalm.1, hcalm.2]

/-- The loop goes on: nothing that ends it has been consumed. -/
structure Waiting (q : Query) (i : Nat) (consumed : List Piece) (control : Control) (items : List Item) : Prop
    extends Collected q i consumed control items where
  incomplete : control.results.isPollComplete = false
  unended : (q.answers consumed).any Message.isUnknown = false
  short : (descriptorCount (q.answers consumed) : Int) < q.wanted

variable {l : Listing} {ds : List l.Descriptor} {terminal : Option Codecs.ControlResponse}
  (hanswer : l.Complete q.wanted ds terminal) (hstream : q.Answered (l.answer ds terminal))
  (hcalm : ∀ i, (q.turns i).isClosed = false ∧ (q.turns i).timedOut = false)

include hanswer hstream hcalm

/-- **One turn**: the loop returns with the whole answer, or goes on waiting. -/
theorem Waiting.turn (h : Waiting q i consumed control items) :
    ∃ passed rest control', Passes (items ++ (q.turns i).arrived) passed rest ∧
      ((q.answers (consumed ++ passed) = l.answer ds terminal ∧ (l ≠ .subscriptions ∨ terminal = none) ∧
          Collected q (i + 1) (consumed ++ passed) control' rest ∧
          ∀ fuel, q.loop (fuel + 1) i consumed control items = .ok ⟨none, control', rest, i + 1⟩) ∨
        (¬(q.answers (consumed ++ passed) = l.answer ds terminal ∧ (l ≠ .subscriptions ∨ terminal = none)) ∧
          Waiting q (i + 1) (consumed ++ passed) control' rest ∧
          ∀ fuel, q.loop (fuel + 1) i consumed control items =
            q.loop fuel (i + 1) (consumed ++ passed) control' rest)) := by
  obtain ⟨passed, rest, control', hpasses, hnext, hcomplete, hloop⟩ :=
    h.toCollected.turn hstream h.incomplete h.short (hcalm i)
  refine ⟨passed, rest, control', hpasses, ?_⟩
  have hends := l.ends_iff hanswer (hnext.begins hstream)
  have hunknown : (q.answers (consumed ++ passed)).any Message.isUnknown = control'.results.isPollComplete := by
    rw [q.answers_append, List.any_append, h.unended, hcomplete, Bool.false_or]
  rw [hunknown] at hends
  by_cases hdone : control'.results.isPollComplete = true ∨ q.wanted ≤ descriptorCount (q.answers (consumed ++ passed))
  · obtain ⟨hwhole, hknown⟩ := hends.mp hdone
    exact .inl ⟨hwhole, hknown, hnext, fun fuel => by rw [hloop, if_pos hdone]⟩
  · refine .inr ⟨fun hall => hdone (hends.mpr hall), ?_, fun fuel => by rw [hloop, if_neg hdone]⟩
    obtain ⟨hincomplete, hshort⟩ := not_or.mp hdone
    have hfalse := Bool.not_eq_true _ ▸ hincomplete
    exact ⟨hnext, hfalse, by rw [hunknown, hfalse], Int.not_le.mp hshort⟩

/-- A loop that does not know the end of the answer never ends. -/
theorem descriptorsLoop_unfinished (hunknown : ¬(l ≠ .subscriptions ∨ terminal = none)) (fuel : Nat) :
    ∀ (i : Nat) (consumed : List Piece) (control : Control) (items : List Item),
      Waiting q i consumed control items → q.loop fuel i consumed control items = .error .unfinished := by
  induction fuel with
  | zero =>
    intro i consumed control items _
    rfl
  | succ fuel ih =>
    intro i consumed control items h
    obtain ⟨passed, rest, control', _, ⟨_, hknown, _⟩ | ⟨_, hwaiting, hloop⟩⟩ := h.turn hanswer hstream hcalm
    · exact absurd hknown hunknown
    · rw [hloop]
      exact ih (i + 1) (consumed ++ passed) control' rest hwaiting

omit hanswer hstream hcalm in
/-- The loop returns with the whole answer, from a turn on in which some of the fragments of `all` are unread. -/
def LoopLists (q : Query) (answer : List Message) (all : List Piece) (i : Nat) (items : List Item) (own : List Piece) :
    Prop :=
  ∀ (consumed : List Piece) (control : Control), consumed ++ own = all → Waiting q i consumed control items →
    ∃ fuel returned consumed', q.loop fuel i consumed control items = .ok returned ∧ returned.answer = none ∧
      q.answers consumed' = answer ∧ Collected q returned.turns consumed' returned.control returned.items

/-- **The loop of `PollForDescriptors`**, by induction over its polls. -/
theorem descriptorsLoop_lists (hknown : l ≠ .subscriptions ∨ terminal = none) {all : List Piece}
    (hall : q.answers all = l.answer ds terminal) (k i : Nat) (items : List Item) (own : List Piece) (hown : own ≠ [])
    (harrive : own <+: fragments (items ++ arrivals q.turns i k)) :
    LoopLists q (l.answer ds terminal) all i items own := by
  refine polling_induction q.turns (P := LoopLists q (l.answer ds terminal) all) ?_ k i items own hown harrive
  rintro i items own future _ hprefix ih consumed control rfl h
  obtain ⟨passed, rest, control', hpasses, ⟨hwhole, _, hcollected, hloop⟩ | ⟨hnot, hwaiting, hloop⟩⟩ :=
    h.turn hanswer hstream hcalm
  · exact ⟨1, _, _, hloop 0, rfl, hwhole, hcollected⟩
  · rw [hpasses.fragments_eq, List.append_assoc] at hprefix
    rcases List.prefix_or_prefix_of_prefix hprefix (List.prefix_append passed _) with ⟨extra, rfl⟩ | ⟨own', rfl⟩
    · -- all was read: the answer is whole, but then the loop would have returned
      refine absurd ⟨?_, hknown⟩ hnot
      have hle := hwaiting.toCollected.begins hstream
      rw [← List.append_assoc, q.answers_append, hall] at hle ⊢
      exact (hle.eq_of_length_le (by rw [List.length_append]; omega)).symm ▸ rfl
    · by_cases hrest : own' = []
      · subst hrest
        rw [List.append_nil] at hall
        exact absurd ⟨hall, hknown⟩ hnot
      obtain ⟨fuel, returned, consumed', hreturns, hfacts⟩ :=
        ih passed own' rest rfl hrest hpasses (consumed ++ passed) control' (List.append_assoc _ _ _) hwaiting
      exact ⟨fuel + 1, returned, consumed', by rw [hloop, hreturns], hfacts⟩

end Loop

/-! ## The calls -/

/-- The control with which `PollForDescriptors` begins. -/
def Control.unlisted (control : Control) : Control :=
  { control with results := { control.results with
      controlResponse := none
      isPollComplete := false
      recordingDescriptors := []
      recordingSubscriptionDescriptors := []
      fragmentsReceived := 0 } }

theorem pollForDescriptors_eq (options : Options) (correlations : Int → Bool) (turns : Nat → Turn)
    (correlationID wanted : Int) (fuel : Nat) (control : Control) (items : List Item) :
    pollForDescriptors options correlations turns correlationID wanted fuel control items =
      Query.loop ⟨options, correlations, turns, control.sessionID, correlationID, wanted, items⟩ fuel 0 []
        control.unlisted items := rfl

/-- At the start nothing has been consumed. -/
theorem unlisted_waiting (q : Query) (hwanted : 0 < q.wanted) (control : Control) (hsession : control.sessionID = q.sessionID) :
    Waiting q 0 [] control.unlisted q.items where
  split := by
    intro k
    rw [Nat.zero_add]
    rfl
  session := hsession
  recordings := rfl
  subscriptions := rfl
  response := nofun
  incomplete := rfl
  unended := rfl
  short := hwanted

/-- A call that wants nothing returns nothing, after a poll that may not read. -/
theorem pollForDescriptors_zero (options : Options) (correlations : Int → Bool) (turns : Nat → Turn) (correlationID : Int)
    (control : Control) (items : List Item) :
    pollForDescriptors options correlations turns correlationID 0 1 control items =
      .ok ⟨none, control.unlisted.clear, enterTerm (items ++ (turns 0).arrived), 1⟩ := by
  have hpoll : poll (descriptorHandler options correlations correlationID) (0 - 0) control.unlisted
      (items ++ (turns 0).arrived) = (0, control.unlisted.clear, enterTerm (items ++ (turns 0).arrived)) :=
    pollTerm_zero _ _ _
  show descriptorsLoop options correlations turns correlationID 0 1 0 0 control.unlisted items = _
  rw [descriptorsLoop, if_neg (show ¬control.unlisted.results.isPollComplete = true from nofun), hpoll]
  exact if_pos (.inr (Int.le_refl 0))

namespace Listing

variable (options : Options) (correlations : Int → Bool) (turns : Nat → Turn) (l : Listing) (correlationID wanted : Int)

/-- The results from which a call answers. -/
def descriptors : (l : Listing) → ControlResults → List l.Descriptor
  | recordings => ControlResults.recordingDescriptors
  | recordingsForUri => ControlResults.recordingDescriptors
  | subscriptions => ControlResults.recordingSubscriptionDescriptors

theorem run_eq (fuel : Nat) (control : Control) (items : List Item) :
    l.run options correlations turns correlationID wanted fuel control items =
      listing l.descriptors (pollForDescriptors options correlations turns correlationID wanted fuel control items) := by
  cases l <;> rfl

/-- A call whose poll returned answers the descriptors collected. -/
theorem listing_answer {returned : Returned (Option Text)} (hnone : returned.answer = none)
    (hresponse : ∀ r, returned.control.results.controlResponse = some r → r.code ≠ .ERROR) :
    listing l.descriptors (.ok returned) =
      .ok ⟨.ok (l.descriptors returned.control.results), returned.control, returned.items, returned.turns⟩ := by
  obtain ⟨answer, control, items, turns⟩ := returned
  obtain rfl : answer = none := hnone
  unfold listing
  cases hr : control.results.controlResponse with
  | none => simp only [hr]
  | some r => simp only [hr, if_neg (hresponse r hr)]

end Listing

theorem Collected.descriptors {q : Query} {items : List Item} {control : Control}
    (h : Collected q i consumed control items) (l : Listing) :
    l.descriptors control.results = l.found (q.answers consumed) := by
  cases l with
  | recordings | recordingsForUri => exact h.recordings
  | subscriptions => exact h.subscriptions

theorem Listing.Complete.length_le {l : Listing} {wanted : Int} {ds : List l.Descriptor}
    {terminal : Option Codecs.ControlResponse} (h : l.Complete wanted ds terminal) : (ds.length : Int) ≤ wanted := by
  cases terminal with
  | none => exact Int.le_of_eq h
  | some r => exact Int.le_of_lt h.1

section Calls

variable {options : Options} {correlations : Int → Bool} {turns : Nat → Turn} {correlationID wanted : Int} {l : Listing}
  {ds : List l.Descriptor} {terminal : Option Codecs.ControlResponse} {control : Control} {items : List Item}
  (hanswer : l.Complete wanted ds terminal)
  (hstream : Answering options correlations turns control.sessionID correlationID items (l.answer ds terminal))
  (hcalm : ∀ i, (turns i).isClosed = false ∧ (turns i).timedOut = false)

include hanswer hstream hcalm

/-- A call that knows the end of its answer returns the descriptors. -/
theorem Listing.run_returns (hknown : l ≠ .subscriptions ∨ terminal = none) :
    ∃ fuel returned, l.run options correlations turns correlationID wanted fuel control items = .ok returned ∧
      returned.answer = .ok ds := by
  by_cases hwanted : 0 < wanted
  · obtain ⟨k₀, hk₀⟩ := hstream.arrives
    have hall := hk₀ k₀ (Nat.le_refl k₀)
    have hne : fragments (items ++ arrivals turns 0 k₀) ≠ [] := by
      intro hnil
      rw [hnil] at hall
      have hends := (l.ends_iff hanswer List.nil_prefix).mpr ⟨hall, hknown⟩
      rcases hends with hends | hends
      · cases hends
      · exact absurd hends (Int.not_le.mpr hwanted)
    obtain ⟨fuel, returned, consumed, hloop, hnone, hwhole, hcollected⟩ :=
      descriptorsLoop_lists (q := ⟨options, correlations, turns, control.sessionID, correlationID, wanted, items⟩) hanswer
        hstream hcalm hknown hall k₀ 0 items _ hne List.prefix_rfl [] control.unlisted rfl
        (unlisted_waiting _ hwanted control rfl)
    refine ⟨fuel, ⟨.ok ds, returned.control, returned.items, returned.turns⟩, ?_, rfl⟩
    rw [Listing.run_eq, pollForDescriptors_eq]
    refine (congrArg (listing l.descriptors) hloop).trans ?_
    rw [l.listing_answer hnone hcollected.response, hcollected.descriptors, hwhole, l.found_answer.1]
  · have hle := hanswer.length_le
    obtain rfl : wanted = 0 := by omega
    obtain rfl : ds = [] := List.length_eq_zero_iff.mp (by omega)
    refine ⟨1, ⟨.ok [], control.unlisted.clear, enterTerm (items ++ (turns 0).arrived), 1⟩, ?_, rfl⟩
    have hresponse : ∀ r, control.unlisted.clear.results.controlResponse = some r → r.code ≠ .ERROR := nofun
    rw [Listing.run_eq, pollForDescriptors_zero, l.listing_answer rfl hresponse]
    cases l <;> rfl

/-- A listing of subscriptions that comes up short never returns. -/
theorem Listing.run_unfinished (hunknown : ¬(l ≠ .subscriptions ∨ terminal = none)) (fuel : Nat) :
    l.run options correlations turns correlationID wanted fuel control items = .error .unfinished := by
  have hwanted : 0 < wanted := by
    cases terminal with
    | none => exact absurd (.inr rfl) hunknown
    | some r => exact Int.lt_of_le_of_lt (Int.natCast_nonneg _) hanswer.1
  rw [Listing.run_eq, pollForDescriptors_eq]
  exact congrArg (listing l.descriptors) (descriptorsLoop_unfinished hanswer hstream hcalm hunknown fuel 0 []
    control.unlisted items (unlisted_waiting _ hwanted control rfl))

end Calls

/-- **A listing returns the archive's answer**, whatever else the stream carries and however it arrives, if and only if
it is not a listing of subscriptions that comes up short. -/
theorem listing_returns_iff (options : Options) (correlations : Int → Bool) (turns : Nat → Turn) (l : Listing)
    (correlationID wanted : Int) (ds : List l.Descriptor) (terminal : Option Codecs.ControlResponse) (control : Control)
    (items : List Item) (hanswer : l.Complete wanted ds terminal)
    (hstream : Answering options correlations turns control.sessionID correlationID items (l.answer ds terminal))
    (hcalm : ∀ i, (turns i).isClosed = false ∧ (turns i).timedOut = false) :
    (∃ fuel returned, l.run options correlations turns correlationID wanted fuel control items = .ok returned ∧
        returned.answer = .ok ds ∧ (ds.length : Int) ≤ wanted) ↔
      l ≠ .subscriptions ∨ terminal = none := by
  constructor
  · rintro ⟨fuel, returned, hrun, _⟩
    by_contra hunknown
    rw [Listing.run_unfinished hanswer hstream hcalm hunknown fuel] at hrun
    cases hrun
  · intro hknown
    obtain ⟨fuel, returned, hrun, hds⟩ := Listing.run_returns hanswer hstream hcalm hknown
    exact ⟨fuel, returned, hrun, hds, hanswer.length_le⟩

theorem arrivals_none (i k : Nat) : arrivals (fun _ => {}) i k = [] := by
  induction k generalizing i with
  | zero => rfl
  | succ k ih => exact ih (i + 1)

/-- All of the answer is there at the start. -/
theorem answering_waiting {options : Options} {correlations : Int → Bool} {sessionID correlationID : Int}
    {items : List Item} (hregistered : correlations correlationID = true)
    (hanswer : answersIn options.rangeChecking sessionID correlationID (fragments items) = answer)
    (hquiet : Quiet options.rangeChecking sessionID (fragments items)) :
    Answering options correlations (fun _ => {}) sessionID correlationID items answer where
  registered := hregistered
  arrives := by
    refine ⟨0, fun k _ => ?_⟩
    rw [arrivals_none, List.append_nil]
    exact hanswer
  quiet := by
    intro k
    rw [arrivals_none, List.append_nil]
    exact hquiet

/-- A recording between a signal and a response to another request, then the end of the listing. -/
def recordingItems : List Item :=
  [.fragment unfragmented (signalBytes 1 7 3 1), .fragment unfragmented (recordingBytes 1 7 3), .termEnd,
    .fragment unfragmented (responseBytes 1 8 0 0 []), .fragment unfragmented (responseBytes 1 7 3 2 [])]

theorem listing_returns_iff_recordings :
    (∃ fuel returned, listRecordings .listening (· = 7) (fun _ => {}) 7 5 fuel (.connected 1) recordingItems = .ok returned ∧
        returned.answer = .ok [{ controlSessionId := 1, correlationId := 7, recordingId := 3 }] ∧ (1 : Int) ≤ 5) ↔
      Listing.recordings ≠ .subscriptions ∨ some (⟨1, 7, 3, 2, 0, []⟩ : Codecs.ControlResponse) = none := by
  refine listing_returns_iff .listening (· = 7) (fun _ => {}) .recordings 7 5
    [{ controlSessionId := 1, correlationId := 7, recordingId := 3 }] (some ⟨1, 7, 3, 2, 0, []⟩) (.connected 1)
    recordingItems ⟨by decide, by decide⟩ (answering_waiting rfl ?_ ?_) (fun _ => ⟨rfl, rfl⟩)
  · decide +kernel
  · decide +kernel

/-- A recording subscription, then the end of the listing. -/
def subscriptionItems : List Item :=
  [.fragment unfragmented (subscriptionBytes 1 7 3 [105, 112, 99]), .fragment unfragmented (responseBytes 1 7 0 3 [])]

/-- A listing of at most five subscriptions, of which there is one: with no time-out it never returns, and with a
time-out in the third turn it fails, though the whole answer was there in the first. -/
theorem listRecordingSubscriptions_times_out :
    Listing.subscriptions.Complete 5 [⟨1, 7, 3, 0, [105, 112, 99]⟩] (some ⟨1, 7, 0, 3, 0, []⟩) ∧
      Answering .listening (· = 7) (fun _ => {}) (Control.connected 1).sessionID 7 subscriptionItems
        (Listing.subscriptions.answer [⟨1, 7, 3, 0, [105, 112, 99]⟩] (some ⟨1, 7, 0, 3, 0, []⟩)) ∧
      (∀ fuel, listRecordingSubscriptions .listening (· = 7) (fun _ => {}) 7 5 fuel (.connected 1) subscriptionItems =
        .error .unfinished) ∧
      (listRecordingSubscriptions .listening (· = 7) (fun i => { timedOut := i = 2 }) 7 5 9 (.connected 1)
          subscriptionItems).map (fun returned => (returned.answer, returned.turns)) =
        .ok (.error (text "PollNextDescriptor timeout waiting for correlationID 7"), 3) := by
  have hanswer : Listing.subscriptions.Complete 5 [⟨1, 7, 3, 0, [105, 112, 99]⟩] (some ⟨1, 7, 0, 3, 0, []⟩) :=
    ⟨by decide, by decide⟩
  have hstream : Answering .listening (· = 7) (fun _ => {}) (Control.connected 1).sessionID 7 subscriptionItems
      (Listing.subscriptions.answer [⟨1, 7, 3, 0, [105, 112, 99]⟩] (some ⟨1, 7, 0, 3, 0, []⟩)) :=
    answering_waiting rfl (by decide +kernel) (by decide +kernel)
  refine ⟨hanswer, hstream, fun fuel => ?_, by decide +kernel⟩
  exact Listing.run_unfinished (l := .subscriptions) hanswer hstream (fun _ => ⟨rfl, rfl⟩) (by decide) fuel

end AeronGo.Archive.Pollers
