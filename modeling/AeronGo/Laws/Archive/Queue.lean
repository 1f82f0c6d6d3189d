import AeronGo.Archive.Queue
import AeronGo.Laws.FragmentAssembler
import AeronGo.Laws.Image.BoundedPoll
import AeronGo.Laws.Image.ControlledPoll

/-!
# Laws of the queue

The queue is what the slots of a term are to a poll. A handler of the image `Follows` a handler of the
queue if it answers every fragment as that one does, on what is seen of its state; then
`Image.ControlledPoll` and the poll of the queue count the same fragments, leave the same and come to the
same state (`Follows.controlledPoll`). This holds for a controlled assembler before a delegate that reads a
message's bytes.
-/

namespace AeronGo.Archive

open Machine Util Atomic LogBuffer
open Image (ControlledPollAction ControlledFragmentHandler Walked walk walk_cons walk_cons_of_stuck answered answered_on
  handle)

variable {σ τ δ : Type}

/-- The items of a row of slots, up to the first one that is not committed. -/
def itemsOf : List Slot → List Item
  | [] => []
  | .data flags payload :: rest => .fragment flags payload :: itemsOf rest
  | .padding _ :: rest => .padding :: itemsOf rest
  | .pending _ :: _ => []

/-! ## Polls -/

@[simp] theorem pollTerm_zero (handler : Handler σ) (st : σ) (items : List Item) :
    pollTerm handler 0 st items = (0, st, items) := by
  cases items with
  | nil => rw [pollTerm]
  | cons item rest => cases item <;> simp only [pollTerm]

theorem pollTerm_nil (handler : Handler σ) (limit : Nat) (st : σ) : pollTerm handler limit st [] = (0, st, []) := by
  rw [pollTerm]

section Fragment

variable {handler : Handler σ} {limit : Nat} {st st' : σ} {flags : UInt8} {payload : List UInt8} {rest : List Item}

theorem pollTerm_abort (h : handler st flags payload = (.abort, st')) :
    pollTerm handler (limit + 1) st (.fragment flags payload :: rest) = (0, st', .fragment flags payload :: rest) := by
  rw [pollTerm, h]

theorem pollTerm_break (h : handler st flags payload = (.break, st')) :
    pollTerm handler (limit + 1) st (.fragment flags payload :: rest) = (1, st', rest) := by
  rw [pollTerm, h]

theorem pollTerm_on {action : ControlledPollAction} (h : handler st flags payload = (action, st'))
    (hon : action ≠ .abort ∧ action ≠ .break) {r : Nat × σ × List Item} (hr : pollTerm handler limit st' rest = r) :
    pollTerm handler (limit + 1) st (.fragment flags payload :: rest) = (r.1 + 1, r.2) := by
  rw [pollTerm, h]
  cases action with
  | abort => exact absurd rfl hon.1
  | «break» => exact absurd rfl hon.2
  | commit | «continue» => simp only [hr]

theorem pollTerm_padding : pollTerm handler (limit + 1) st (.padding :: rest) = pollTerm handler (limit + 1) st rest := by
  rw [pollTerm]

end Fragment

theorem enterTerm_itemsOf (slots : List Slot) : enterTerm (itemsOf slots) = itemsOf slots := by
  cases slots with
  | nil => rfl
  | cons s rest => cases s <;> rfl

/-- The handler of the image answers each data frame of a row as that of the queue does. -/
structure Follows (handler : ControlledFragmentHandler σ) (sessionId : Int) (buf : Buffer) (view : σ → τ)
    (queued : Handler τ) (inv : List Slot → σ → Prop) : Prop where
  answers : ∀ {offset : Int} {flags : UInt8} {payload : List UInt8} {rest : List Slot} {st : σ} (seen : Int),
    Row sessionId buf offset (.data flags payload :: rest) → inv (.data flags payload :: rest) st →
    ∃ action st', handler st seen buf (offset + headerLength) payload.length offset = .ok (action, st') ∧
      queued (view st) flags payload = (action, view st') ∧ inv rest st'
  passes : ∀ {n : Int} {rest : List Slot} {st : σ}, inv (.padding n :: rest) st → inv rest st

namespace Follows

variable {handler : ControlledFragmentHandler σ} {sessionId : Int} {buf : Buffer} {view : σ → τ} {queued : Handler τ}
  {inv : List Slot → σ → Prop} (h : Follows handler sessionId buf view queued inv)

include h

/-- **The walk of a controlled poll is the poll of the queue.** -/
theorem walk (termBegin : Int) : ∀ (slots : List Slot) (limit seen offset : Int) (st : σ),
    Row sessionId buf offset slots → inv slots st →
    ∃ w rest, Image.walk handler buf termBegin (termBegin + buf.length) limit seen (termBegin + offset) st slots = .ok w ∧
      slots = w.slots ++ rest ∧
      pollTerm queued limit.toNat (view st) (itemsOf slots) = (w.slots.countP Slot.isData, view w.state, itemsOf rest) := by
  intro slots
  induction slots with
  | nil =>
    intro limit seen offset st _ _
    exact ⟨⟨[], seen, st⟩, [], rfl, rfl, by simp [itemsOf, pollTerm_nil]⟩
  | cons s slots ih =>
    intro limit seen offset st hrow hinv
    have hspace := Slot.space_bounds hrow.at_head.frameLength_ge
    have hbound : termBegin + offset < termBegin + buf.length := by
      have := hrow.head_inside
      have := hrow.at_head.frameLength_ge
      omega
    by_cases hgo : 0 < limit ∧ s.isPending = false
    · obtain ⟨k, rfl⟩ : ∃ k : Nat, limit = k + 1 := ⟨(limit - 1).toNat, by omega⟩
      have hlimit : ((k : Int) + 1).toNat = k + 1 := by omega
      have hread : readable (termBegin + buf.length) (termBegin + offset, s) = true := by
        simp only [readable, hgo.2, Bool.not_false, Bool.and_true, decide_eq_true_eq]
        exact hbound
      have hnext : termBegin + offset + s.space = termBegin + (offset + s.space) := Int.add_assoc _ _ _
      rw [walk_cons hgo.1 hread]
      cases s with
      | pending n => cases hgo.2
      | padding n =>
        obtain ⟨w, rest, hwalk, hsplit, hpoll⟩ := ih (k + 1) seen _ st hrow.tail (h.passes hinv)
        refine ⟨{ w with slots := .padding n :: w.slots }, rest, ?_, by rw [hsplit]; rfl, ?_⟩
        · have hon : ControlledPollAction.continue ≠ .abort ∧ ControlledPollAction.continue ≠ .break := by decide
          rw [handle, ok_bind, answered_on hon, hnext]
          simp only [Slot.isData, Bool.false_eq_true, if_false, reduceCtorEq, hwalk, ok_bind]
        · rw [hlimit] at hpoll ⊢
          rw [itemsOf, pollTerm_padding, hpoll]
          rfl
      | data flags payload =>
        obtain ⟨action, st', hhandle, hqueued, hinv'⟩ := h.answers seen hrow hinv
        have hoffset : termBegin + offset - termBegin = offset := add_sub_cancel_left _ _
        rw [handle, hoffset, hhandle, ok_bind, hlimit, itemsOf]
        by_cases habort : action = .abort
        · subst habort
          exact ⟨⟨[], seen, st'⟩, _, rfl, rfl, pollTerm_abort hqueued⟩
        by_cases hbreak : action = .break
        · subst hbreak
          exact ⟨⟨[_], seen, st'⟩, slots, rfl, rfl, pollTerm_break hqueued⟩
        rw [answered_on ⟨habort, hbreak⟩, hnext]
        generalize (if action = .commit then termBegin + (offset + (Slot.data flags payload).space) else seen) = seen'
        obtain ⟨w, rest, hwalk, hsplit, hpoll⟩ := ih k seen' _ st' hrow.tail hinv'
        refine ⟨{ w with slots := .data flags payload :: w.slots }, rest, ?_, by rw [hsplit]; rfl, ?_⟩
        · simp only [Slot.isData, if_true, Int.add_sub_cancel, hwalk, ok_bind]
        · rw [Int.toNat_natCast] at hpoll
          rw [pollTerm_on hqueued ⟨habort, hbreak⟩ hpoll]
          rw [List.countP_cons_of_pos rfl]
    · have hnot : ¬(0 < limit ∧ readable (termBegin + buf.length) (termBegin + offset, s) = true) := by
        intro hread
        simp only [readable, Bool.and_eq_true, Bool.not_eq_true'] at hread
        exact hgo ⟨hread.1, hread.2.2⟩
      refine ⟨⟨[], seen, st⟩, s :: slots, walk_cons_of_stuck hnot, rfl, ?_⟩
      by_cases hlimit : 0 < limit
      · cases s with
        | pending n => rw [itemsOf, pollTerm_nil]; rfl
        | padding n | data flags payload => exact absurd ⟨hlimit, rfl⟩ hgo
      · rw [show limit.toNat = 0 by omega, pollTerm_zero]
        rfl

end Follows

/-- **A controlled poll of the image is a poll of the queue.** -/
theorem Follows.controlledPoll {handler : ControlledFragmentHandler σ} {sessionId : Int} {view : σ → τ}
    {queued : Handler τ} {inv : List Slot → σ → Prop} {p : LogParams} {termBuffers : Int → Buffer} {position : Int}
    {slots : List Slot} (h : Follows handler sessionId (Image.bufferAt p termBuffers position) view queued inv)
    (hholds : Image.Holds p termBuffers sessionId position slots) (fragmentLimit : Int) {st : σ} (hinv : inv slots st) :
    ∃ passed rest st', slots = passed ++ rest ∧
      Image.controlledPoll p termBuffers ⟨false, position⟩ handler fragmentLimit st =
        .ok (fragmentCount passed, ⟨false, position + totalSpace passed⟩, st') ∧
      controlledPoll queued fragmentLimit (view st) (itemsOf slots) = ((fragmentCount passed).toNat, view st', itemsOf rest) := by
  obtain ⟨w, rest, hwalk, hsplit, hpoll⟩ :=
    h.walk (Image.termBegin p position) slots fragmentLimit position (position % p.termLength) st hholds.row hinv
  have hplace : Image.termBegin p position + position % p.termLength = position := Int.sub_add_cancel _ _
  rw [hplace, hholds.length_eq, ← Image.termEnd] at hwalk
  refine ⟨w.slots, rest, w.state, hsplit, ?_, ?_⟩
  · rw [Image.controlledPoll_eq hholds, hwalk, ok_bind]
  · rw [Archive.controlledPoll, enterTerm_itemsOf, hpoll, fragmentCount, Int.toNat_natCast]

/-! ## The handlers of the archive -/

variable (delegate : δ → List UInt8 → ControlledPollAction × δ)

/-- A handler of bytes, as the delegate of an assembler. -/
def readingDelegate : ControlledFragmentAssembler.Delegate δ :=
  fun d _ buffer offset length _ => do
    let bytes ← buffer.writeBytes offset length
    return delegate d bytes

/-- What `assembling` does, by the message that a fragment completes. -/
theorem assembling_eq (builder : List UInt8) (d : δ) (flags : UInt8) (payload : List UInt8) :
    assembling delegate (builder, d) flags payload =
      match completes builder (.data flags payload) with
      | none => (.continue, nextBuilder builder (.data flags payload), d)
      | some message => ((delegate d message).1,
          if (delegate d message).1 = .abort then builder else nextBuilder builder (.data flags payload),
          (delegate d message).2) := by
  simp only [assembling, completes, nextBuilder]
  split
  · simp only [ite_self]
  split
  · rfl
  split
  · rfl
  split
  · rfl
  · rfl

/-- The bytes that slots may add to a builder. -/
def payloadsOf : List Slot → Nat
  | [] => 0
  | .data _ payload :: rest => payload.length + payloadsOf rest
  | _ :: rest => payloadsOf rest

theorem assembling_follows (sessionId : Int) (buf : Buffer) :
    Follows (ControlledFragmentAssembler.onFragment (readingDelegate delegate)) sessionId buf
      (fun st => (held st.1 sessionId, st.2)) (assembling delegate)
      (fun slots st => ((held st.1 sessionId).length : Int) + payloadsOf slots < 2147483648) where
  answers := by
    intro offset flags payload rest st seen hrow hinv
    obtain ⟨builders, d⟩ := st
    have hin := hrow.data_inside
    simp only [payloadsOf, Int.natCast_add] at hinv
    obtain ⟨next, hheld, heq⟩ := ControlledFragmentAssembler.onFragment_eq hrow.small hrow.offset_nonneg hin hrow.at_head
      (readingDelegate delegate) builders seen d
    have hnext : ∀ action, held (next action) sessionId = if action = .abort then held builders sessionId
        else nextBuilder (held builders sessionId) (.data flags payload) := by
      intro action
      rw [hheld, Function.update_self]
    have hkept : ∀ action, ((held (next action) sessionId).length : Int) + payloadsOf rest < 2147483648 := by
      intro action
      have hlength := length_nextBuilder (held builders sessionId) flags payload
      rw [hnext]
      split <;> omega
    simp only [assembling_eq, heq]
    rcases handedOn_cases hrow.small hrow.offset_nonneg hin hrow.at_head (held builders sessionId) (by omega) with
      ⟨hnone, hc⟩ | ⟨b, o, l, message, hsome, hc, hread⟩
    · refine ⟨.continue, (next .continue, d), by rw [hnone], ?_, hkept _⟩
      simp only [hc, hnext, reduceCtorEq, if_false]
    · refine ⟨(delegate d message).1, (next (delegate d message).1, (delegate d message).2), ?_, ?_, hkept _⟩
      · simp only [hsome, readingDelegate, hread, ok_bind]
        rfl
      · simp only [hc, hnext]
  passes := fun hinv => hinv

/-- **A poll of the image through an assembler is a poll of the queue**: it counts and leaves the same fragments,
and the bytes held and the delegate come out the same. -/
theorem assembled_poll_queue {p : LogParams} {termBuffers : Int → Buffer} {sessionId position : Int} {slots : List Slot}
    (hholds : Image.Holds p termBuffers sessionId position slots) (fragmentLimit : Int) (st : Builders × δ)
    (hroom : ((held st.1 sessionId).length : Int) + payloadsOf slots < 2147483648) :
    ∃ passed rest st', slots = passed ++ rest ∧
      Image.controlledPoll p termBuffers ⟨false, position⟩
          (ControlledFragmentAssembler.onFragment (readingDelegate delegate)) fragmentLimit st =
        .ok (fragmentCount passed, ⟨false, position + totalSpace passed⟩, st') ∧
      controlledPoll (assembling delegate) fragmentLimit (held st.1 sessionId, st.2) (itemsOf slots) =
        ((fragmentCount passed).toNat, (held st'.1 sessionId, st'.2), itemsOf rest) :=
  (assembling_follows delegate sessionId _).controlledPoll hholds fragmentLimit hroom

/-- A message in two fragments with padding between them, behind one that was never ended: both fragments are counted,
and the delegate sees the message alone. -/
theorem assembled_poll_queue_split :
    ∃ passed rest, ∃ st' : Builders × List (List UInt8), Image.splitSlots = passed ++ rest ∧
      Image.controlledPoll .smallest (fun _ => Image.splitTerm) ⟨false, 0⟩ (ControlledFragmentAssembler.onFragment
          (readingDelegate fun seen message => (.commit, seen ++ [message]))) 10 (fun _ => some [9], []) =
        .ok (fragmentCount passed, ⟨false, 0 + totalSpace passed⟩, st') ∧
      controlledPoll (assembling fun seen message => (.commit, seen ++ [message])) 10 ([9], [])
        (itemsOf Image.splitSlots) = ((fragmentCount passed).toNat, (held st'.1 0, st'.2), itemsOf rest) ∧
      (fragmentCount passed).toNat = 2 ∧ st'.2 = [[1, 2, 3]] ∧ held st'.1 0 = [] := by
  obtain ⟨passed, rest, st', hsplit, hpoll, hqueue⟩ := assembled_poll_queue
    (fun seen message => (.commit, seen ++ [message])) Image.splitTerm_holds 10 (fun _ => some [9], []) (by decide)
  have hcounted : (2, ([], [[1, 2, 3]]), []) = ((fragmentCount passed).toNat, (held st'.1 0, st'.2), itemsOf rest) := hqueue
  simp only [Prod.mk.injEq] at hcounted
  exact ⟨passed, rest, st', hsplit, hpoll, hqueue, hcounted.1.symm, hcounted.2.1.2.symm, hcounted.2.1.1.symm⟩

end AeronGo.Archive
