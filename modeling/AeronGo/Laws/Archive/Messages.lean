import AeronGo.Archive.Pollers

/-!
# The handlers on messages

What the control stream carries, once decoded, and what each handler does with a message that it can
decode. Everything that is shown of the pollers rests on these laws and on none of the codecs.
-/

namespace AeronGo.Archive.Pollers

open Machine LogBuffer Codecs
open Image (ControlledPollAction)

/-- A control message. -/
inductive Message where
  | controlResponse (response : Codecs.ControlResponse)
  | challenge (challenge : Challenge)
  | recordingDescriptor (descriptor : RecordingDescriptor)
  | recordingSubscriptionDescriptor (descriptor : RecordingSubscriptionDescriptor)
  | recordingSignalEvent (event : RecordingSignalEvent)
  | other (templateId : Int)
deriving DecidableEq, Repr

/-- What was decoded without an error. -/
def whole {α : Type} (f : Filling α) : Option α := if f.error.isSome then none else some f.value

/-- The message in some bytes. -/
def decoded (rangeChecking : Bool) (bytes : List UInt8) : Option Message :=
  (whole (SbeGoMessageHeader.decode bytes)).bind fun hdr =>
    let rest := (SbeGoMessageHeader.decode bytes).rest
    if hdr.templateId = ControlResponse.sbeTemplateId then
      (whole (ControlResponse.decode rest hdr.version hdr.blockLength rangeChecking)).map .controlResponse
    else if hdr.templateId = Challenge.sbeTemplateId then
      (whole (Challenge.decode rest hdr.version hdr.blockLength rangeChecking)).map .challenge
    else if hdr.templateId = RecordingDescriptor.sbeTemplateId then
      (whole (RecordingDescriptor.decode rest hdr.version hdr.blockLength rangeChecking)).map .recordingDescriptor
    else if hdr.templateId = RecordingSubscriptionDescriptor.sbeTemplateId then
      (whole (RecordingSubscriptionDescriptor.decode rest hdr.version hdr.blockLength rangeChecking)).map
        .recordingSubscriptionDescriptor
    else if hdr.templateId = RecordingSignalEvent.sbeTemplateId then
      (whole (RecordingSignalEvent.decode rest hdr.version hdr.blockLength rangeChecking)).map .recordingSignalEvent
    else some (.other hdr.templateId)

theorem whole_eq_some {α : Type} {f : Filling α} {a : α} (h : whole f = some a) : f.error = none ∧ f.value = a := by
  rw [whole] at h
  split at h
  next => cases h
  next herror => exact ⟨Option.not_isSome_iff_eq_none.mp herror, Option.some.inj h⟩

/-- What a message was decoded from, behind its header. -/
def DecodedFrom (rangeChecking : Bool) (hdr : Filling SbeGoMessageHeader) : Message → Prop
  | .controlResponse r => hdr.value.templateId = ControlResponse.sbeTemplateId ∧
      whole (ControlResponse.decode hdr.rest hdr.value.version hdr.value.blockLength rangeChecking) = some r
  | .challenge c => hdr.value.templateId = Challenge.sbeTemplateId ∧
      whole (Challenge.decode hdr.rest hdr.value.version hdr.value.blockLength rangeChecking) = some c
  | .recordingDescriptor d => hdr.value.templateId = RecordingDescriptor.sbeTemplateId ∧
      whole (RecordingDescriptor.decode hdr.rest hdr.value.version hdr.value.blockLength rangeChecking) = some d
  | .recordingSubscriptionDescriptor d => hdr.value.templateId = RecordingSubscriptionDescriptor.sbeTemplateId ∧
      whole (RecordingSubscriptionDescriptor.decode hdr.rest hdr.value.version hdr.value.blockLength rangeChecking) =
        some d
  | .recordingSignalEvent e => hdr.value.templateId = RecordingSignalEvent.sbeTemplateId ∧
      whole (RecordingSignalEvent.decode hdr.rest hdr.value.version hdr.value.blockLength rangeChecking) = some e
  | .other templateId => hdr.value.templateId = templateId ∧ templateId ≠ ControlResponse.sbeTemplateId ∧
      templateId ≠ Challenge.sbeTemplateId ∧ templateId ≠ RecordingDescriptor.sbeTemplateId ∧
      templateId ≠ RecordingSubscriptionDescriptor.sbeTemplateId ∧ templateId ≠ RecordingSignalEvent.sbeTemplateId

theorem decodedFrom {rangeChecking : Bool} {bytes : List UInt8} {m : Message}
    (h : decoded rangeChecking bytes = some m) :
    (SbeGoMessageHeader.decode bytes).error = none ∧ DecodedFrom rangeChecking (SbeGoMessageHeader.decode bytes) m := by
  obtain ⟨hdr, hwhole, hmessage⟩ := Option.bind_eq_some_iff.mp h
  obtain ⟨herror, rfl⟩ := whole_eq_some hwhole
  refine ⟨herror, ?_⟩
  split at hmessage
  next htemplate =>
    obtain ⟨r, hr, rfl⟩ := Option.map_eq_some_iff.mp hmessage
    exact ⟨htemplate, hr⟩
  next hresponse =>
  split at hmessage
  next htemplate =>
    obtain ⟨c, hc, rfl⟩ := Option.map_eq_some_iff.mp hmessage
    exact ⟨htemplate, hc⟩
  next hchallenge =>
  split at hmessage
  next htemplate =>
    obtain ⟨d, hd, rfl⟩ := Option.map_eq_some_iff.mp hmessage
    exact ⟨htemplate, hd⟩
  next hdescriptor =>
  split at hmessage
  next htemplate =>
    obtain ⟨d, hd, rfl⟩ := Option.map_eq_some_iff.mp hmessage
    exact ⟨htemplate, hd⟩
  next hsubscription =>
  split at hmessage
  next htemplate =>
    obtain ⟨e, he, rfl⟩ := Option.map_eq_some_iff.mp hmessage
    exact ⟨htemplate, he⟩
  next hsignal =>
    obtain rfl := Option.some.inj hmessage
    exact ⟨rfl, hresponse, hchallenge, hdescriptor, hsubscription, hsignal⟩

/-- Bytes with a header that do not decode: the decoder of their template fails. -/
theorem undecoded {rangeChecking : Bool} {bytes : List UInt8} {hdr : Filling SbeGoMessageHeader}
    (hhdr : SbeGoMessageHeader.decode bytes = hdr) (h : decoded rangeChecking bytes = none) (herror : hdr.error = none) :
    (hdr.value.templateId = ControlResponse.sbeTemplateId →
      (ControlResponse.decode hdr.rest hdr.value.version hdr.value.blockLength rangeChecking).error.isSome) ∧
    (hdr.value.templateId = RecordingDescriptor.sbeTemplateId →
      (RecordingDescriptor.decode hdr.rest hdr.value.version hdr.value.blockLength rangeChecking).error.isSome) ∧
    (hdr.value.templateId = RecordingSubscriptionDescriptor.sbeTemplateId →
      (RecordingSubscriptionDescriptor.decode hdr.rest hdr.value.version hdr.value.blockLength
        rangeChecking).error.isSome) ∧
    (hdr.value.templateId = RecordingSignalEvent.sbeTemplateId →
      (RecordingSignalEvent.decode hdr.rest hdr.value.version hdr.value.blockLength rangeChecking).error.isSome) := by
  subst hhdr
  simp only [decoded, whole, herror, Option.isSome_none, Bool.false_eq_true, if_false, Option.bind_some] at h
  refine ⟨?_, ?_, ?_, ?_⟩ <;> intro htemplate <;> rw [Option.isSome_iff_ne_none] <;>
    simpa [htemplate, ControlResponse.sbeTemplateId, Challenge.sbeTemplateId, RecordingDescriptor.sbeTemplateId,
      RecordingSubscriptionDescriptor.sbeTemplateId, RecordingSignalEvent.sbeTemplateId] using h

/-! ## The handlers -/

@[simp] theorem Control.report_results (options : Options) (error : Text) (control : Control) :
    (control.report options error).results = control.results ∧
      (control.report options error).sessionID = control.sessionID := by
  unfold Control.report
  split <;> exact ⟨rfl, rfl⟩

@[simp] theorem Control.reportDecode_results (options : Options) (message : String) (error : Option Text) (control : Control) :
    (control.reportDecode options message error).results = control.results ∧
      (control.reportDecode options message error).sessionID = control.sessionID := by
  cases error with
  | none => exact ⟨rfl, rfl⟩
  | some cause => exact Control.report_results options _ control

theorem Control.signal_results (options : Options) (event : RecordingSignalEvent) (control : Control) :
    (control.signal options event).results = control.results ∧
      (control.signal options event).sessionID = control.sessionID := by
  unfold Control.signal
  split <;> exact ⟨rfl, rfl⟩

section Handlers

variable (options : Options) {correlations : Int → Bool} {correlationID : Int}
  (hregistered : correlations correlationID = true) (control : Control) {bytes : List UInt8} {m : Message}
  (hm : decoded options.rangeChecking bytes = some m)

include hregistered hm

theorem controlFragmentHandler_decoded (hcomplete : control.results.isPollComplete = false) :
    controlFragmentHandler options correlations correlationID control bytes =
      match m with
      | .controlResponse r =>
        if r.controlSessionId = control.sessionID ∧ r.correlationId = correlationID then (.break, control.complete r)
        else (.continue, control)
      | .recordingSignalEvent e => (.continue, control.signal options e)
      | _ => (.continue, control) := by
  obtain ⟨herror, hfrom⟩ := decodedFrom hm
  simp only [controlFragmentHandler, hcomplete, Bool.false_eq_true, if_false, herror, Option.isSome_none, hregistered,
    not_true_eq_false]
  cases m with
  | controlResponse r =>
    obtain ⟨hr, rfl⟩ := whole_eq_some hfrom.2
    simp only [hfrom.1, if_true, hr, Option.isSome_none, Bool.false_eq_true, if_false]
  | challenge c => simp [hfrom.1, Challenge.sbeTemplateId, ControlResponse.sbeTemplateId, RecordingSignalEvent.sbeTemplateId]
  | recordingDescriptor d =>
    simp [hfrom.1, RecordingDescriptor.sbeTemplateId, ControlResponse.sbeTemplateId, RecordingSignalEvent.sbeTemplateId]
  | recordingSubscriptionDescriptor d =>
    simp [hfrom.1, RecordingSubscriptionDescriptor.sbeTemplateId, ControlResponse.sbeTemplateId,
      RecordingSignalEvent.sbeTemplateId]
  | recordingSignalEvent e =>
    obtain ⟨he, rfl⟩ := whole_eq_some hfrom.2
    simp [hfrom.1, RecordingSignalEvent.sbeTemplateId, ControlResponse.sbeTemplateId, he, Control.reportDecode]
  | other templateId =>
    obtain ⟨rfl, hresponse, _, _, _, hsignal⟩ := hfrom
    simp only [if_neg hresponse, if_neg hsignal]

/-- `DescriptorFragmentHandler`. -/
theorem descriptorFragmentHandler_decoded :
    descriptorFragmentHandler options correlations correlationID control bytes =
      match m with
      | .recordingDescriptor d =>
        if d.controlSessionId = control.sessionID ∧ d.correlationId = correlationID then
          { control with results := { control.results with
            recordingDescriptors := control.results.recordingDescriptors ++ [d]
            fragmentsReceived := control.results.fragmentsReceived + 1 } }
        else control
      | .recordingSubscriptionDescriptor d =>
        if d.controlSessionId = control.sessionID ∧ d.correlationId = correlationID then
          { control with results := { control.results with
            recordingSubscriptionDescriptors := control.results.recordingSubscriptionDescriptors ++ [d]
            fragmentsReceived := control.results.fragmentsReceived + 1 } }
        else control
      | .controlResponse r =>
        if r.controlSessionId = control.sessionID then
          if r.correlationId = correlationID ∧ r.code = .RECORDING_UNKNOWN then control.complete r
          else if r.code = .ERROR then control.complete r
          else control
        else control
      | .recordingSignalEvent e => control.signal options e
      | _ => control := by
  obtain ⟨herror, hfrom⟩ := decodedFrom hm
  simp only [descriptorFragmentHandler, Bool.false_eq_true, if_false, herror, Option.isSome_none, hregistered,
    not_true_eq_false]
  cases m with
  | controlResponse r =>
    obtain ⟨hr, rfl⟩ := whole_eq_some hfrom.2
    simp [hfrom.1, ControlResponse.sbeTemplateId, RecordingDescriptor.sbeTemplateId,
      RecordingSubscriptionDescriptor.sbeTemplateId, hr]
  | challenge c =>
    simp [hfrom.1, Challenge.sbeTemplateId, ControlResponse.sbeTemplateId, RecordingSignalEvent.sbeTemplateId,
      RecordingDescriptor.sbeTemplateId, RecordingSubscriptionDescriptor.sbeTemplateId]
  | recordingDescriptor d =>
    obtain ⟨hd, rfl⟩ := whole_eq_some hfrom.2
    simp [hfrom.1, hd]
  | recordingSubscriptionDescriptor d =>
    obtain ⟨hd, rfl⟩ := whole_eq_some hfrom.2
    simp [hfrom.1, RecordingSubscriptionDescriptor.sbeTemplateId, RecordingDescriptor.sbeTemplateId, hd]
  | recordingSignalEvent e =>
    obtain ⟨he, rfl⟩ := whole_eq_some hfrom.2
    simp [hfrom.1, RecordingSignalEvent.sbeTemplateId, ControlResponse.sbeTemplateId, RecordingDescriptor.sbeTemplateId,
      RecordingSubscriptionDescriptor.sbeTemplateId, he]
  | other templateId =>
    obtain ⟨rfl, hresponse, _, hdescriptor, hsubscription, hsignal⟩ := hfrom
    simp only [if_neg hdescriptor, if_neg hsubscription, if_neg hresponse, if_neg hsignal]

end Handlers

/-! ## Encoded messages -/

/-- A header of this schema version, as an archive encodes it. -/
def headerBytes (blockLength templateId : Int) : List UInt8 :=
  leBytes 2 blockLength ++ leBytes 2 templateId ++ leBytes 2 101 ++ leBytes 2 schemaVersion

def responseBytes (controlSessionId correlationId relevantId code : Int) (errorMessage : List UInt8) : List UInt8 :=
  headerBytes ControlResponse.sbeBlockLength ControlResponse.sbeTemplateId ++ leBytes 8 controlSessionId ++
    leBytes 8 correlationId ++ leBytes 8 relevantId ++ leBytes 4 code ++ leBytes 4 0 ++
    leBytes 4 errorMessage.length ++ errorMessage

def challengeBytes (controlSessionId correlationId : Int) (encodedChallenge : List UInt8) : List UInt8 :=
  headerBytes Challenge.sbeBlockLength Challenge.sbeTemplateId ++ leBytes 8 controlSessionId ++ leBytes 8 correlationId ++
    leBytes 4 0 ++ leBytes 4 encodedChallenge.length ++ encodedChallenge

def signalBytes (controlSessionId correlationId recordingId signal : Int) : List UInt8 :=
  headerBytes RecordingSignalEvent.sbeBlockLength RecordingSignalEvent.sbeTemplateId ++ leBytes 8 controlSessionId ++
    leBytes 8 correlationId ++ leBytes 8 recordingId ++ leBytes 8 0 ++ leBytes 8 0 ++ leBytes 4 signal

/-- A descriptor with its identity alone, and no channels. -/
def recordingBytes (controlSessionId correlationId recordingId : Int) : List UInt8 :=
  headerBytes RecordingDescriptor.sbeBlockLength RecordingDescriptor.sbeTemplateId ++ leBytes 8 controlSessionId ++
    leBytes 8 correlationId ++ leBytes 8 recordingId ++ leBytes 32 0 ++ leBytes 24 0 ++ leBytes 12 0

def subscriptionBytes (controlSessionId correlationId subscriptionId : Int) (strippedChannel : List UInt8) : List UInt8 :=
  headerBytes RecordingSubscriptionDescriptor.sbeBlockLength RecordingSubscriptionDescriptor.sbeTemplateId ++
    leBytes 8 controlSessionId ++ leBytes 8 correlationId ++ leBytes 8 subscriptionId ++ leBytes 4 0 ++
    leBytes 4 strippedChannel.length ++ strippedChannel

/-- A connected control that has polled nothing yet. -/
def Control.connected (sessionID : Int) : Control := ⟨.connected, none, {}, [], sessionID, [], [], []⟩

/-- The options of an archive without authentication, both listeners set. -/
def Options.listening : Options := ⟨false, none, [], true, true⟩

end AeronGo.Archive.Pollers
