import AeronGo.Archive.Control
import AeronGo.Laws.Archive.Messages
import AeronGo.Laws.Archive.Queue

/-!
# `Poll` on bytes and on decoded fragments

`Control` has the fragments of its stream decoded, which is all that a merge needs to know of them; `Pollers` has
the stream itself. The one is a view of the other: `pendingOf` decodes what waits in the term with the bytes that
the assembler holds, and a `Poll` of the stream is, so viewed, a `Poll` of the decoded fragments.

The view ends with the term, as a poll does. The fragments of the next term are among those that arrive before a
later poll, and what `Poll` reports to the error listener is not part of the view.
-/

namespace AeronGo.Archive.Pollers

open Machine LogBuffer Codecs
open Image (ControlledPollAction)

/-- A response as a merge has it, without its message. -/
def viewResponse (r : Codecs.ControlResponse) : Archive.ControlResponse :=
  ⟨r.controlSessionId, r.correlationId, i64 r.relevantId, r.code, i64_range _⟩

/-- The results as a merge has them. `Poll` sets no error response. -/
def viewResults (r : ControlResults) : Archive.ControlResults :=
  ⟨r.correlationId, r.controlResponse.map viewResponse, r.isPollComplete, none⟩

/-- What a message is to `Poll`: a response that decodes, or one of all others. -/
def fragmentOf (rangeChecking : Bool) (bytes : List UInt8) : ControlFragment :=
  let hdr := SbeGoMessageHeader.decode bytes
  let response := ControlResponse.decode hdr.rest hdr.value.version hdr.value.blockLength rangeChecking
  if hdr.error.isSome ∨ hdr.value.templateId ≠ ControlResponse.sbeTemplateId ∨ response.error.isSome then .other
  else .controlResponse (viewResponse response.value)

/-- A fragment that completes no message is among the others. -/
def pieceOf (rangeChecking : Bool) (b : List UInt8) (s : Slot) : ControlFragment :=
  (completes b s).elim .other (fragmentOf rangeChecking)

/-- The fragments that wait in the term, given the bytes held by the assembler. -/
def pendingOf (rangeChecking : Bool) : List UInt8 → List Item → List ControlFragment
  | _, [] => []
  | _, .termEnd :: _ => []
  | b, .padding :: rest => pendingOf rangeChecking b rest
  | b, .fragment flags payload :: rest =>
    pieceOf rangeChecking b (.data flags payload) ::
      pendingOf rangeChecking (nextBuilder b (.data flags payload)) rest

variable (options : Options) {control : Control}

/-- The delegate of `Poll` does with the bytes what it does with the fragment. -/
theorem onFragment_view (control : Control) (bytes : List UInt8) :
    Control.onFragment (viewResults control.results) (fragmentOf options.rangeChecking bytes) =
      ((onFragment options control bytes).1, viewResults (onFragment options control bytes).2.results) := by
  cases hdone : control.results.isPollComplete with
  | true => simp [Control.onFragment, onFragment, viewResults, hdone]
  | false =>
    simp only [Control.onFragment, onFragment, fragmentOf, hdone, viewResults, Bool.false_eq_true, if_false]
    generalize SbeGoMessageHeader.decode bytes = hdr
    generalize ControlResponse.decode hdr.rest hdr.value.version hdr.value.blockLength options.rangeChecking = response
    by_cases herror : hdr.error.isSome = true
    · simp [herror, hdone]
    by_cases htemplate : hdr.value.templateId = ControlResponse.sbeTemplateId
    · by_cases hfailed : response.error.isSome = true
      · simp [herror, htemplate, hfailed, hdone]
      · simp [herror, htemplate, hfailed, Control.complete, viewResponse]
    · simp only [herror, htemplate, if_false, false_or, ne_eq, not_false_eq_true, true_or, if_true, Bool.false_eq_true]
      split <;> simp [hdone]

/-- **One fragment**, through the assembler. It is refused only if the results were complete before. -/
theorem assembling_view (hopen : control.results.isPollComplete = false) (b : List UInt8) (flags : UInt8)
    (payload : List UInt8) :
    ∃ action next, assembling (onFragment options) (b, control) flags payload =
        (action, nextBuilder b (.data flags payload), next) ∧
      Control.onFragment (viewResults control.results) (pieceOf options.rangeChecking b (.data flags payload)) =
        (action, viewResults next.results) ∧
      (action = .break ∨ action = .continue ∧ next.results.isPollComplete = false) := by
  have hview : (viewResults control.results).isPollComplete = false := hopen
  rw [assembling_eq, pieceOf]
  cases completes b (.data flags payload) with
  | none =>
    refine ⟨.continue, control, rfl, ?_, .inr ⟨rfl, hopen⟩⟩
    simp only [Option.elim_none, Control.onFragment, hview, Bool.false_eq_true, if_false]
  | some message =>
    rcases hon : onFragment options control message with ⟨action, next⟩
    have heq := onFragment_view options control message
    rw [hon] at heq
    have hgoes : action = .break ∨ action = .continue ∧ next.results.isPollComplete = false := by
      simp only [Control.onFragment, hview, Bool.false_eq_true, if_false] at heq
      split at heq <;> obtain ⟨rfl, hnext⟩ := Prod.mk.inj heq
      · exact .inl rfl
      · exact .inr ⟨rfl, (congrArg Archive.ControlResults.isPollComplete hnext).symm.trans hview⟩
    refine ⟨action, next, ?_, heq, hgoes⟩
    rcases hgoes with rfl | ⟨rfl, _⟩ <;> simp only [hon, reduceCtorEq, if_false]

/-- What a poll comes to, in the view. -/
def viewPoll (polled : Nat × (List UInt8 × Control) × List Item) :
    Nat × Archive.ControlResults × List ControlFragment :=
  (polled.1, viewResults polled.2.1.2.results, pendingOf options.rangeChecking polled.2.1.1 polled.2.2)

/-- **The loop of a poll**, by induction over what waits. -/
theorem pollTerm_view (hopen : control.results.isPollComplete = false) (limit : Nat) (b : List UInt8)
    (items : List Item) :
    Control.controlledPoll limit (viewResults control.results) (pendingOf options.rangeChecking b items) =
      viewPoll options (pollTerm (assembling (onFragment options)) limit (b, control) items) := by
  induction items generalizing limit b control with
  | nil => cases limit <;> rfl
  | cons item items ih =>
    cases limit with
    | zero =>
      rw [pollTerm_zero]
      rfl
    | succ limit =>
      cases item with
      | termEnd => rfl
      | padding => exact ih hopen (limit + 1) b
      | fragment flags payload =>
        obtain ⟨action, next, hstep, hview, hgoes⟩ := assembling_view options hopen b flags payload
        rw [pendingOf, Control.controlledPoll, hview]
        rcases hgoes with rfl | ⟨rfl, hnext⟩
        · rw [pollTerm_break hstep]
          rfl
        · rw [pollTerm_on hstep ⟨nofun, nofun⟩ rfl]
          simp only [ih hnext, viewPoll]

/-- **`Poll` of the stream is `Poll` of the decoded fragments**: it counts the same, leaves the same results for the
merge, and the fragments that it leaves are those left on the stream. -/
theorem pollControl_view {items rest : List Item} {count : Nat} {control' : Control}
    (h : pollControl options control items = (count, control', rest)) :
    (Archive.Control.mk (viewResults control.results)
        (pendingOf options.rangeChecking control.builder (enterTerm items))).poll =
      (count, ⟨viewResults control'.results, pendingOf options.rangeChecking control'.builder rest⟩) := by
  -- complete results are cleared first, on both sides
  obtain ⟨start, hstart, hbuilder, hopen, hview⟩ : ∃ start : Control,
      (if control.results.isPollComplete then { control with results := {} } else control) = start ∧
      control.builder = start.builder ∧ start.results.isPollComplete = false ∧
      (if control.results.isPollComplete then Archive.ControlResults.empty else viewResults control.results) =
        viewResults start.results := by
    cases hdone : control.results.isPollComplete with
    | true => exact ⟨_, rfl, rfl, rfl, rfl⟩
    | false => exact ⟨_, rfl, rfl, hdone, rfl⟩
  rw [pollControl, hstart] at h
  cases h
  have hloop := pollTerm_view options hopen controlFragmentLimit start.builder (enterTerm items)
  rw [← hview] at hloop
  rw [hbuilder]
  exact congrArg (fun polled => (polled.1, Archive.Control.mk polled.2.1 polled.2.2)) hloop

end AeronGo.Archive.Pollers
