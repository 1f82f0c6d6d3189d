import AeronGo.LogBuffer.Passed
import AeronGo.Laws.Atomic.Buffer
import AeronGo.Laws.LogBuffer.Slot

/-!
# Laws of the reader

Over a term that holds a row of slots the read loop is the fold of the handler over the slots that
are passed (`readFrames_eq`). A lower bound only cuts that list off (`passed_min`).
-/

namespace AeronGo.LogBuffer

open Machine Util Atomic

/-! ## What is passed -/

section Passed

variable {fragmentLimit bound position : Int} {s : Slot} {slots : List Slot}

@[simp] theorem passed_nil (fragmentLimit bound position : Int) :
    passed fragmentLimit bound position [] = [] := rfl

theorem passed_cons (fragmentLimit bound position : Int) (s : Slot) (slots : List Slot) :
    passed fragmentLimit bound position (s :: slots) =
      if 0 < fragmentLimit ∧ readable bound (position, s) = true then (position, s) ::
        passed (if s.isData then fragmentLimit - 1 else fragmentLimit) bound (position + s.space) slots
      else [] := by
  cases hr : readable bound (position, s) with
  | false => simp [passed, starts, hr, upToFragments]
  | true => simp only [passed, starts, List.takeWhile_cons_of_pos hr, upToFragments, and_true]

theorem passed_cons_of_readable (hlimit : 0 < fragmentLimit) (hr : readable bound (position, s) = true) :
    passed fragmentLimit bound position (s :: slots) = (position, s) ::
      passed (if s.isData then fragmentLimit - 1 else fragmentLimit) bound (position + s.space) slots := by
  rw [passed_cons, if_pos ⟨hlimit, hr⟩]

/-- A slot that is not passed, nor any behind it. -/
theorem passed_cons_of_stuck (h : ¬(0 < fragmentLimit ∧ readable bound (position, s) = true)) :
    passed fragmentLimit bound position (s :: slots) = [] := by
  rw [passed_cons, if_neg h]

@[simp] theorem fragmentCount_nil : fragmentCount [] = 0 := rfl

theorem fragmentCount_cons (s : Slot) (slots : List Slot) :
    fragmentCount (s :: slots) = (if s.isData then 1 else 0) + fragmentCount slots := by
  cases h : s.isData with
  | false => simp [fragmentCount, h]
  | true =>
    simp only [fragmentCount, List.countP_cons, h, if_true]
    omega

@[simp] theorem spaceOf_nil : spaceOf [] = 0 := rfl

@[simp] theorem spaceOf_cons (x : Int × Slot) (rest : List (Int × Slot)) :
    spaceOf (x :: rest) = x.2.space + spaceOf rest := rfl

end Passed

/-! ## The frame fields of a slot -/

section Fields

variable {buf : Buffer} {sessionId offset : Int} {s : Slot} (hs : Addressable buf) (lo : 0 ≤ offset)
  (hin : offset + s.space ≤ buf.length) (h : s.At sessionId buf.bytes offset)

include hs lo hin h

/-- The length field: negative for a pending slot. -/
theorem getFrameLength_at :
    getFrameLength buf offset = .ok (if s.isPending then -s.frameLength else s.frameLength) := by
  have hspace := (Slot.space_bounds h.frameLength_ge).2.1
  rw [getFrameLength, Buffer.getInt32_ok hs lo (by omega)]
  cases s with
  | data flags payload => rw [h.1]; rfl
  | padding n | pending n => rw [h.2.1]; rfl

theorem isPaddingFrame_at : isPaddingFrame buf offset = .ok (!s.isData && !s.isPending) := by
  have hspace := (Slot.space_bounds h.frameLength_ge).2.1
  have hsmall : buf.length ≤ 1073741824 := hs
  have hword : i32 (offset + 6) = offset + 6 := i32_eq (by omega)
  rw [isPaddingFrame, hword, Buffer.getUInt16_ok hs (by omega) (by omega)]
  cases s with
  | data flags payload =>
    have htype := h.2.1
    simp only [bind, Except.bind, pure, Except.pure, htype]
    rfl
  | padding n =>
    have htype := h.2.2
    simp only [bind, Except.bind, pure, Except.pure, htype]
    rfl
  | pending n =>
    have htype := h.2.2.1
    simp only [bind, Except.bind, pure, Except.pure, htype]
    rfl

/-- A committed slot's frame, aligned, is its space. -/
theorem alignInt32_frameLength : alignInt32 s.frameLength frameAlignment = s.space := by
  have hbounds := Slot.space_bounds h.frameLength_ge
  have hge := h.frameLength_ge
  have hsmall : buf.length ≤ 1073741824 := hs
  exact alignInt32_eq (by omega) (by omega)

end Fields

/-! ## The read loop -/

/-- A row of slots in a term, from an offset on: it ends with the term or before a frame that is not
committed. -/
structure Row (sessionId : Int) (buf : Buffer) (offset : Int) (slots : List Slot) : Prop where
  small : Addressable buf
  offset_nonneg : 0 ≤ offset
  aligned : offset % 32 = 0 ∧ buf.length % 32 = 0
  laid : Laid sessionId buf.bytes offset slots (offset + totalSpace slots)
  inside : offset + totalSpace slots ≤ buf.length
  ends : offset + totalSpace slots < buf.length → getInt32 buf.bytes (offset + totalSpace slots) ≤ 0

namespace Row

variable {sessionId : Int} {buf : Buffer} {offset : Int} {s : Slot} {slots : List Slot}

theorem at_head (h : Row sessionId buf offset (s :: slots)) : s.At sessionId buf.bytes offset := h.laid.1

theorem head_inside (h : Row sessionId buf offset (s :: slots)) : offset + s.space ≤ buf.length := by
  have hrest := Laid.le h.laid.2
  have hin := h.inside
  omega

theorem tail (h : Row sessionId buf offset (s :: slots)) : Row sessionId buf (offset + s.space) slots := by
  have hsum : offset + totalSpace (s :: slots) = offset + s.space + totalSpace slots := by
    rw [totalSpace_cons]
    omega
  have hspace := Slot.space_bounds h.at_head.frameLength_ge
  have hlaid := h.laid.2
  have hin := h.inside
  have hends := h.ends
  have hlo := h.offset_nonneg
  have halign := h.aligned
  rw [hsum] at hlaid hin hends
  exact ⟨h.small, by omega, ⟨by omega, halign.2⟩, hlaid, hin, hends⟩

/-- What a loop finds at a committed slot. -/
theorem committed_head (h : Row sessionId buf offset (s :: slots)) (hcommitted : s.isPending = false) :
    getFrameLength buf offset = .ok s.frameLength ∧ ¬s.frameLength ≤ 0 ∧ isPaddingFrame buf offset = .ok (!s.isData) ∧
      i32 (offset + alignInt32 s.frameLength frameAlignment) = offset + s.space ∧ offset < buf.length := by
  have hge := h.at_head.frameLength_ge
  have hspace := Slot.space_bounds hge
  have hin := h.head_inside
  have hlo := h.offset_nonneg
  have hsmall : buf.length ≤ 1073741824 := h.small
  rw [getFrameLength_at h.small hlo hin h.at_head, isPaddingFrame_at h.small hlo hin h.at_head, hcommitted,
    alignInt32_frameLength h.small hlo hin h.at_head, i32_eq (by omega)]
  exact ⟨rfl, by omega, by simp, rfl, by omega⟩

theorem pending_head (h : Row sessionId buf offset (s :: slots)) (hpending : ¬s.isPending = false) :
    getFrameLength buf offset = .ok (-s.frameLength) ∧ -s.frameLength ≤ 0 := by
  have hge := h.at_head.frameLength_ge
  rw [getFrameLength_at h.small h.offset_nonneg h.head_inside h.at_head, if_pos (Bool.not_eq_false _ ▸ hpending)]
  exact ⟨rfl, by omega⟩

variable {flags : UInt8} {payload : List UInt8}

/-- The frame of a data slot lies in the buffer. -/
theorem data_inside (h : Row sessionId buf offset (.data flags payload :: slots)) :
    offset + ((payload.length : Int) + 32) ≤ buf.length := by
  have hspace : (payload.length : Int) + 32 ≤ _ := (Slot.space_bounds h.at_head.frameLength_ge).1
  have hin := h.head_inside
  omega

/-- The offset and the length that a handler is called with. -/
theorem data_words (h : Row sessionId buf offset (.data flags payload :: slots)) (termBegin : Int) :
    i32 (offset + headerLength) = termBegin + offset - termBegin + headerLength ∧
      i32 ((Slot.data flags payload).frameLength - headerLength) = payload.length ∧
      termBegin + offset - termBegin = offset := by
  have hin := h.data_inside
  have hlo := h.offset_nonneg
  have hsmall : buf.length ≤ 1073741824 := h.small
  simp only [headerLength, Slot.frameLength]
  rw [i32_eq (by omega), i32_eq (by omega)]
  omega

/-- Where the row has ended there is nothing to read. -/
theorem stops (h : Row sessionId buf offset []) (hlt : offset < buf.length) :
    ∃ length, getFrameLength buf offset = .ok length ∧ length ≤ 0 := by
  have halign := h.aligned
  have hends := h.ends
  rw [totalSpace_nil, Int.add_zero] at hends
  exact ⟨_, Buffer.getInt32_ok h.small h.offset_nonneg (by omega), hends hlt⟩

end Row

variable {σ : Type}

section Loop

variable {sessionId : Int} {buf : Buffer} {offset : Int} {s : Slot} {slots : List Slot}

/-- A round of the loop on a slot that is passed. -/
theorem readFrames_pass (hrow : Row sessionId buf offset (s :: slots)) (handler : FragmentHandler σ)
    (termBegin : Int) {fragmentLimit offsetLimit fragmentsRead : Int} (hcount : fragmentsRead < fragmentLimit)
    (hoff : offset < offsetLimit) (hcommitted : s.isPending = false) (fuel : Nat) (st : σ) :
    readFrames buf handler fragmentLimit offsetLimit (fuel + 1) offset fragmentsRead st =
      deliver handler buf termBegin st (termBegin + offset, s) >>=
        readFrames buf handler fragmentLimit offsetLimit fuel (offset + s.space)
          (fragmentsRead + if s.isData then 1 else 0) := by
  obtain ⟨hlength, hpositive, hpadding, hnext, _⟩ := hrow.committed_head hcommitted
  simp only [readFrames, if_pos (And.intro hcount hoff), hlength, hpadding, bind, Except.bind, if_neg hpositive, hnext]
  cases s with
  | pending n => cases hcommitted
  | padding n => simp only [Slot.isData, Bool.not_false, if_true, deliver, Bool.false_eq_true, if_false, Int.add_zero]
  | data flags payload =>
    obtain ⟨hheader, hpayload, hoffset⟩ := hrow.data_words termBegin
    simp only [Slot.isData, Bool.not_true, Bool.false_eq_true, if_false, if_true, hheader, hpayload, deliver, hoffset]

/-- The loop ends on a slot that is not passed. -/
theorem readFrames_halt (hrow : Row sessionId buf offset (s :: slots)) (handler : FragmentHandler σ)
    {fragmentLimit offsetLimit fragmentsRead : Int}
    (hstop : ¬(fragmentsRead < fragmentLimit ∧ offset < offsetLimit ∧ s.isPending = false))
    (fuel : Nat) (st : σ) :
    readFrames buf handler fragmentLimit offsetLimit (fuel + 1) offset fragmentsRead st =
      .ok (offset, fragmentsRead, st) := by
  unfold readFrames
  split
  next hgo =>
    obtain ⟨hlength, hneg⟩ := hrow.pending_head fun hp => hstop ⟨hgo.1, hgo.2, hp⟩
    simp only [hlength, bind, Except.bind, if_pos hneg]
    rfl
  next => rfl

end Loop

/-- **The read loop is the fold of the handler over what is passed.** The slots' positions are
counted from the term's own begin. -/
theorem readFrames_eq {sessionId : Int} {buf : Buffer} (handler : FragmentHandler σ)
    (fragmentLimit termBegin : Int) {offsetLimit : Int} (hlimit : offsetLimit ≤ buf.length) :
    ∀ (slots : List Slot) (fuel : Nat) (offset fragmentsRead : Int) (st : σ),
      Row sessionId buf offset slots → buf.length - offset < fuel →
      readFrames buf handler fragmentLimit offsetLimit fuel offset fragmentsRead st = do
        let xs := passed (fragmentLimit - fragmentsRead) (termBegin + offsetLimit) (termBegin + offset) slots
        let st ← xs.foldlM (deliver handler buf termBegin) st
        return (offset + spaceOf xs, fragmentsRead + fragmentCount (xs.map Prod.snd), st) := by
  intro slots
  induction slots with
  | nil =>
    intro fuel offset fragmentsRead st hrow hfuel
    have hin := hrow.inside
    rw [totalSpace_nil] at hin
    obtain ⟨fuel, rfl⟩ : ∃ k, fuel = k + 1 := ⟨fuel - 1, by omega⟩
    simp only [readFrames, passed_nil, List.foldlM_nil, List.map_nil, spaceOf_nil, fragmentCount_nil, Int.add_zero,
      pure_bind]
    split
    next hgo =>
      obtain ⟨length, hlength, hle⟩ := hrow.stops (by omega)
      simp only [hlength, bind, Except.bind, if_pos hle]
    next => rfl
  | cons s slots ih =>
    intro fuel offset fragmentsRead st hrow hfuel
    have hspace := Slot.space_bounds hrow.at_head.frameLength_ge
    have hin := hrow.head_inside
    obtain ⟨fuel, rfl⟩ : ∃ k, fuel = k + 1 := ⟨fuel - 1, by omega⟩
    by_cases hgo : fragmentsRead < fragmentLimit ∧ offset < offsetLimit ∧ s.isPending = false
    · obtain ⟨hcount, hoff, hcommitted⟩ := hgo
      have hread : readable (termBegin + offsetLimit) (termBegin + offset, s) = true := by
        simp [readable, hcommitted, hoff]
      have hleft : (if s.isData then fragmentLimit - fragmentsRead - 1 else fragmentLimit - fragmentsRead) =
          fragmentLimit - (fragmentsRead + if s.isData then 1 else 0) := by
        split <;> omega
      rw [readFrames_pass hrow handler termBegin hcount hoff hcommitted,
        passed_cons_of_readable (by omega) hread]
      simp only [List.foldlM_cons, bind_assoc, spaceOf_cons, List.map_cons, fragmentCount_cons, hleft, ← Int.add_assoc]
      congr 1
      funext st'
      rw [ih fuel _ _ st' hrow.tail (by omega), Int.add_assoc termBegin]
    · have hstuck : ¬(0 < fragmentLimit - fragmentsRead ∧
          readable (termBegin + offsetLimit) (termBegin + offset, s) = true) := by
        simp only [readable, Bool.and_eq_true, decide_eq_true_eq, Bool.not_eq_true']
        exact fun h => hgo ⟨by omega, by omega, h.2.2⟩
      rw [readFrames_halt hrow handler hgo, passed_cons_of_stuck hstuck]
      simp only [List.foldlM_nil, List.map_nil, spaceOf_nil, fragmentCount_nil, Int.add_zero, pure_bind]
      rfl

/-! ## Bounds only cut off -/

/-- A lower bound passes the slots of the higher one that start below it. -/
theorem passed_min (fragmentLimit low high : Int) :
    ∀ (slots : List Slot) (position : Int),
      passed fragmentLimit (min low high) position slots =
        (passed fragmentLimit high position slots).takeWhile fun x => x.1 < low := by
  intro slots
  induction slots generalizing fragmentLimit with
  | nil => exact fun _ => rfl
  | cons s slots ih =>
    intro position
    have hmin : readable (min low high) (position, s) = (decide (position < low) && readable high (position, s)) := by
      simp only [readable, lt_min_iff, Bool.decide_and, Bool.and_assoc]
    rw [passed_cons, passed_cons, hmin, ih]
    by_cases hgo : 0 < fragmentLimit ∧ readable high (position, s) = true
    · by_cases hlow : position < low <;> simp [hgo, hlow]
    · rw [if_neg hgo, if_neg fun h => hgo ⟨h.1, (Bool.and_eq_true_iff.mp h.2).2⟩]
      rfl

end AeronGo.LogBuffer
