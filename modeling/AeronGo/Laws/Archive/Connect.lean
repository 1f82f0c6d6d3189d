import AeronGo.Laws.Archive.Messages
import AeronGo.Laws.Archive.Polling

/-!
# The connect handshake

`NewArchive` polls until its control is connected or has failed. `Shaken` is kept by every fragment, so by every poll
and by the loop: only an `OK` to the own request connects, and credentials go to challenges of that request alone.
Whether an answer comes is up to the archive.
-/

namespace AeronGo.Archive.Pollers

open Codecs LogBuffer

/-- The session of a fragment that is an `OK` to the request. -/
def acceptedSession (options : Options) (correlations : Int → Bool) (correlationID : Int) (bytes : List UInt8) : Option Int :=
  let hdr := SbeGoMessageHeader.decode bytes
  let response := ControlResponse.decode hdr.rest hdr.value.version hdr.value.blockLength options.rangeChecking
  if hdr.value.templateId = ControlResponse.sbeTemplateId ∧ ¬response.error.isSome ∧ correlations correlationID ∧
      response.value.correlationId = correlationID ∧ response.value.code = .OK then
    some response.value.controlSessionId
  else none

/-- The sessions that a control can be in, and the one challenge response that it sends. -/
structure Shaken (named : Int → Prop) (response : Int × List UInt8) (control : Control) : Prop where
  accepted : control.state = .connected → named control.sessionID
  answered : ∀ sent ∈ control.challengeResponses, sent = response

section Loop

variable {options : Options} {correlations : Int → Bool} {correlationID : Int} {named : Int → Prop}
  {response : Int × List UInt8} {control : Control}

theorem Control.report_frame (error : Text) :
    control.report options error = { control with errors := (control.report options error).errors } := by
  unfold report
  split <;> rfl

theorem Control.reportDecode_frame (message : String) (error : Option Text) :
    control.reportDecode options message error =
      { control with errors := (control.reportDecode options message error).errors } := by
  cases error with
  | none => rfl
  | some cause => exact control.report_frame _

/-- **A fragment** of the handshake. -/
theorem Shaken.fragment (h : Shaken named (correlationID, options.authResponse) control) {bytes : List UInt8}
    (hbytes : ∀ sessionID, acceptedSession options correlations correlationID bytes = some sessionID → named sessionID) :
    Shaken named (correlationID, options.authResponse)
      (connectionControlFragmentHandler options correlations correlationID control bytes) := by
  obtain ⟨haccepted, hanswered⟩ := h
  -- each branch of the handler leaves state, session and responses alone or sets them together
  constructor <;> grind [acceptedSession, connectionControlFragmentHandler, connectionControlFragmentHandler.respond,
    Control.report_frame, Control.reportDecode_frame]

theorem Shaken.ran {control' : Control} {pieces : List Piece}
    (hran : Ran (always (connectionControlFragmentHandler options correlations correlationID)) control pieces control')
    (hpieces : ∀ p ∈ pieces, ∀ sessionID,
      acceptedSession options correlations correlationID p.payload = some sessionID → named sessionID)
    (h : Shaken named (correlationID, options.authResponse) control) :
    Shaken named (correlationID, options.authResponse) control' := by
  induction hran with
  | nil => exact h
  | cons hstep _ _ ih =>
    obtain ⟨_, rfl⟩ := Prod.mk.inj hstep
    exact ih (fun p hp => hpieces p (List.mem_cons_of_mem _ hp)) (h.fragment (hpieces _ List.mem_cons_self))

/-- **The loop**, where every session that a fragment brings is one of the `named`. -/
theorem Shaken.connectLoop {turns : Nat → Turn} {fuel turn : Nat} {items : List Item} {r : Returned (Option Text)}
    (hnamed : ∀ sessionID, (∃ p, (p ∈ fragments items ∨ ∃ i, p ∈ fragments (turns i).arrived) ∧
      acceptedSession options correlations correlationID p.payload = some sessionID) → named sessionID)
    (h : Shaken named (correlationID, options.authResponse) control)
    (hr : Pollers.connectLoop options correlations turns correlationID fuel turn control items = .ok r) :
    (r.answer = none → named r.control.sessionID) ∧
    ∀ sent ∈ r.control.challengeResponses, sent = (correlationID, options.authResponse) := by
  induction fuel generalizing turn control items with
  | zero => cases hr
  | succ fuel ih =>
    rw [Pollers.connectLoop] at hr
    split at hr
    next =>
      obtain ⟨passed, rest, control', hpoll, hpolls⟩ := controlledPoll_polls
        (always (connectionControlFragmentHandler options correlations correlationID)) Int.one_pos control.clear
        (items ++ (turns turn).arrived)
      cases hpolls with
      | broke _ hbreak => cases hbreak
      | aborted _ habort => cases habort
      | ran hran hpasses =>
        have harrived : ∀ p ∈ passed ++ fragments rest, p ∈ fragments items ∨ ∃ i, p ∈ fragments (turns i).arrived := by
          rw [← hpasses.fragments_eq, fragments_append]
          exact fun p hp => (List.mem_append.mp hp).imp id fun hp => ⟨turn, hp⟩
        have hshaken := Shaken.ran hran (fun p hp sessionID haccepted =>
          hnamed sessionID ⟨p, harrived p (List.mem_append_left _ hp), haccepted⟩) ⟨h.accepted, h.answered⟩
        simp only [poll, hpoll] at hr
        split at hr
        · cases hr
          exact ⟨nofun, hshaken.answered⟩
        · refine ih (fun sessionID => ?_) hshaken hr
          rintro ⟨p, hp | hp, haccepted⟩
          · exact hnamed sessionID ⟨p, harrived p (List.mem_append_right _ hp), haccepted⟩
          · exact hnamed sessionID ⟨p, .inr hp, haccepted⟩
    next hend =>
      cases hr
      exact ⟨fun hnone => h.accepted (not_not.mp fun hstate => hend ⟨hstate, hnone⟩), h.answered⟩

/-- **A connection that `NewArchive` returns is one that the archive accepted**, in the session that it named, and
the credentials were sent for the own request only. -/
theorem connect_accepted {turns : Nat → Turn} {fuel : Nat} {items : List Item} {r : Returned (Option Text)}
    (hstate : control.state ≠ .connected) (hsent : control.challengeResponses = [])
    (hr : connectLoop options correlations turns correlationID fuel 0 control items = .ok r) :
    (r.answer = none → ∃ p, (p ∈ fragments items ∨ ∃ i, p ∈ fragments (turns i).arrived) ∧
      acceptedSession options correlations correlationID p.payload = some r.control.sessionID) ∧
    ∀ sent ∈ r.control.challengeResponses, sent = (correlationID, options.authResponse) :=
  Shaken.connectLoop (fun _ hp => hp) ⟨fun hconnected => absurd hconnected hstate, by rw [hsent]; nofun⟩ hr

end Loop

/-- A challenge comes first, then the session. -/
def challenged : Except Atomic.Stop (Returned (Option Text)) :=
  connectLoop .listening (· = 5) (fun _ => {}) 5 3 0 { Control.connected 0 with state := .connectRequestSent }
    [.fragment unfragmented (challengeBytes 6 5 [1]), .fragment unfragmented (responseBytes 7 5 0 0 [])]

theorem connect_accepted_challenged : ∃ r, challenged = .ok r ∧ r.control.sessionID = 7 ∧
    r.control.challengeResponses ≠ [] ∧
    (∃ p ∈ [(⟨unfragmented, challengeBytes 6 5 [1]⟩ : Piece), ⟨unfragmented, responseBytes 7 5 0 0 []⟩],
      acceptedSession .listening (· = 5) 5 p.payload = some r.control.sessionID) ∧
    ∀ sent ∈ r.control.challengeResponses, sent = (5, []) := by
  obtain ⟨r, hr, hanswer, hsession, hsent⟩ : ∃ r, challenged = .ok r ∧ r.answer = none ∧ r.control.sessionID = 7 ∧
      r.control.challengeResponses ≠ [] := ⟨_, rfl, by decide +kernel, by decide +kernel, by decide +kernel⟩
  have hconnected := connect_accepted (by decide) rfl hr
  obtain ⟨p, hp | ⟨_, hp⟩, haccepted⟩ := hconnected.1 hanswer
  · exact ⟨r, hr, hsession, hsent, ⟨p, hp, haccepted⟩, hconnected.2⟩
  · cases hp

end AeronGo.Archive.Pollers
