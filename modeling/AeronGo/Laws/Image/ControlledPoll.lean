import AeronGo.Laws.Image.Poll

/-!
# Laws of controlled polling

The contract of a controlled poll over a row of slots, said without offsets: `walk` goes from slot to
slot and asks the handler at each fragment; an abort leaves the fragment where it is, a break passes it
and stops, and a commit moves the subscriber position that the handler sees from then on. A controlled
poll is that walk (`controlledPoll_eq`): its result is the number of fragments passed, and the position
moves over the slots passed.
-/

namespace AeronGo.Image

open Machine Util Atomic LogBuffer

variable {σ : Type}

/-- Where a walk ends: the slots passed, the position that was committed last, and the handler's state. -/
structure Walked (σ : Type) where
  slots : List Slot
  seen : Int
  state : σ

/-- The handler at a slot. Padding is passed without it. -/
def handle (handler : ControlledFragmentHandler σ) (buf : Buffer) (termBegin : Int) (st : σ) (seen : Int) :
    Int × Slot → Except Stop (ControlledPollAction × σ)
  | (position, .data _ payload) =>
    handler st seen buf (position - termBegin + headerLength) payload.length (position - termBegin)
  | (_, .padding _) => .ok (.continue, st)
  | (_, .pending _) => .ok (.continue, st)

/-- What an answer makes of a slot and of the walk behind it, which goes on with the position that the handler sees. -/
def answered (seen behind : Int) (s : Slot) (next : Int → Except Stop (Walked σ)) (action : ControlledPollAction) (st : σ) :
    Except Stop (Walked σ) :=
  let pass (seen : Int) := do
    let w ← next seen
    return { w with slots := s :: w.slots }
  match action with
  | .abort => .ok ⟨[], seen, st⟩
  | .break => .ok ⟨[s], seen, st⟩
  | .commit => pass behind
  | .continue => pass seen

/-- The walk of a controlled poll. -/
def walk (handler : ControlledFragmentHandler σ) (buf : Buffer) (termBegin bound : Int) :
    Int → Int → Int → σ → List Slot → Except Stop (Walked σ)
  | _, seen, _, st, [] => .ok ⟨[], seen, st⟩
  | limit, seen, position, st, s :: rest =>
    if 0 < limit ∧ readable bound (position, s) = true then do
      let (action, st) ← handle handler buf termBegin st seen (position, s)
      answered seen (position + s.space) s (fun seen => walk handler buf termBegin bound
        (if s.isData then limit - 1 else limit) seen (position + s.space) st rest) action st
    else .ok ⟨[], seen, st⟩

section Walk

variable {handler : ControlledFragmentHandler σ} {buf : Buffer} {termBegin bound limit seen position : Int} {st : σ}
  {s : Slot} {rest : List Slot}

theorem walk_cons (hlimit : 0 < limit) (hr : readable bound (position, s) = true) :
    walk handler buf termBegin bound limit seen position st (s :: rest) =
      handle handler buf termBegin st seen (position, s) >>= fun r =>
        answered seen (position + s.space) s (fun seen => walk handler buf termBegin bound
          (if s.isData then limit - 1 else limit) seen (position + s.space) r.2 rest) r.1 r.2 := by
  rw [walk, if_pos ⟨hlimit, hr⟩]

/-- The walk goes on behind a slot that did not end it. -/
theorem answered_on {behind : Int} {next : Int → Except Stop (Walked σ)} {action : ControlledPollAction}
    (h : action ≠ .abort ∧ action ≠ .break) :
    answered seen behind s next action st =
      next (if action = .commit then behind else seen) >>= fun w => .ok { w with slots := s :: w.slots } := by
  cases action with
  | abort => exact absurd rfl h.1
  | «break» => exact absurd rfl h.2
  | commit => rfl
  | «continue» => rfl

theorem walk_cons_of_stuck (h : ¬(0 < limit ∧ readable bound (position, s) = true)) :
    walk handler buf termBegin bound limit seen position st (s :: rest) = .ok ⟨[], seen, st⟩ := by
  rw [walk, if_neg h]

end Walk

/-! ## The loop -/

/-- The loop's variables at a slot. The position that was committed last is both the image's and the one
that offsets are counted from. -/
def loopAt (termBegin fragmentsRead seen offset : Int) (st : σ) : ControlledLoop σ :=
  ⟨fragmentsRead, seen, seen - termBegin, offset, ⟨false, seen⟩, st⟩

section Loop

variable {sessionId : Int} {buf : Buffer} {offset : Int} {s : Slot} {slots : List Slot} {termBegin : Int}

/-- A round of the loop on a slot that is passed or aborted. -/
theorem controlledFrames_round (hrow : Row sessionId buf offset (s :: slots)) (handler : ControlledFragmentHandler σ)
    {fragmentLimit fragmentsRead : Int} (hcount : fragmentsRead < fragmentLimit) (hcommitted : s.isPending = false)
    (fuel : Nat) (seen : Int) (st : σ) :
    controlledFrames buf handler fragmentLimit (fuel + 1) (loopAt termBegin fragmentsRead seen offset st) =
      handle handler buf termBegin st seen (termBegin + offset, s) >>= fun r =>
        match (loopAt termBegin (fragmentsRead + if s.isData then 1 else 0) seen (offset + s.space) r.2).act s.space r.1 with
        | (true, l) => controlledFrames buf handler fragmentLimit fuel l
        | (false, l) => .ok l := by
  obtain ⟨hlength, hpositive, hpadding, hnext, hoff⟩ := hrow.committed_head hcommitted
  have haligned := alignInt32_frameLength hrow.small hrow.offset_nonneg hrow.head_inside hrow.at_head
  rw [haligned] at hnext
  simp only [controlledFrames, loopAt, if_pos (And.intro hcount hoff), hlength, hpadding, ok_bind, if_neg hpositive,
    haligned, hnext]
  cases s with
  | pending n => cases hcommitted
  | padding n => simp [Slot.isData, handle, ok_bind, ControlledLoop.act]
  | data flags payload =>
    obtain ⟨hheader, hpayload, hoffset⟩ := hrow.data_words termBegin
    simp only [Slot.isData, Bool.not_true, Bool.false_eq_true, if_false, if_true, hheader, hpayload, handle, hoffset]
    rfl

/-- The loop ends on a slot that it may not pass. -/
theorem controlledFrames_halt (hrow : Row sessionId buf offset (s :: slots)) (handler : ControlledFragmentHandler σ)
    {fragmentLimit fragmentsRead : Int} (hstop : ¬(fragmentsRead < fragmentLimit ∧ s.isPending = false)) (fuel : Nat)
    (seen : Int) (st : σ) :
    controlledFrames buf handler fragmentLimit (fuel + 1) (loopAt termBegin fragmentsRead seen offset st) =
      .ok (loopAt termBegin fragmentsRead seen offset st) := by
  unfold controlledFrames
  split
  next hgo =>
    obtain ⟨hlength, hneg⟩ := hrow.pending_head fun hp => hstop ⟨hgo.1, hp⟩
    simp only [loopAt, hlength, ok_bind, if_pos hneg]
    rfl
  next => rfl

/-- What the loop does with an answer, as its variables at the next slot. -/
theorem loopAt_act {fragmentsRead seen space : Int} (st : σ) (lo : 0 ≤ termBegin)
    (hi : termBegin + (offset + space) < 9223372036854775808) (hoff : 0 ≤ offset) (hspace : 0 ≤ space)
    (hword : offset + space < 2147483648) (hseen : termBegin ≤ seen) (hseen' : seen ≤ termBegin + offset) :
    ∀ action, (loopAt termBegin (fragmentsRead + 1) seen (offset + space) st).act space action =
      match action with
      | .abort => (false, loopAt termBegin fragmentsRead seen offset st)
      | .break => (false, loopAt termBegin (fragmentsRead + 1) seen (offset + space) st)
      | .commit => (true, loopAt termBegin (fragmentsRead + 1) (termBegin + offset + space) (offset + space) st)
      | .continue => (true, loopAt termBegin (fragmentsRead + 1) seen (offset + space) st) := by
  intro action
  cases action with
  | abort =>
    simp only [ControlledLoop.act, loopAt]
    rw [i32_eq (by omega), Int.add_sub_cancel, Int.add_sub_cancel]
  | «break» => rfl
  | commit =>
    have hposition : i64 (seen + i32 (offset + space - (seen - termBegin))) = termBegin + offset + space := by
      rw [i32_eq (by omega), i64_eq (by omega)]
      omega
    have hoffset : offset + space = termBegin + offset + space - termBegin := by omega
    simp only [ControlledLoop.act, loopAt, hposition, ← hoffset]
  | «continue» => rfl

theorem handle_of_not_data (handler : ControlledFragmentHandler σ) (st : σ) (seen position : Int)
    (hdata : s.isData = false) : handle handler buf termBegin st seen (position, s) = .ok (.continue, st) := by
  cases s with
  | data flags payload => cases hdata
  | padding n => rfl
  | pending n => rfl

end Loop

section

variable {sessionId : Int} {buf : Buffer} (handler : ControlledFragmentHandler σ) (fragmentLimit : Int) {termBegin : Int}
  (lo : 0 ≤ termBegin) (hi : termBegin + buf.length < 9223372036854775808)

include lo hi

/-- **The loop is the walk.** -/
theorem controlledFrames_eq :
    ∀ (slots : List Slot) (fuel : Nat) (offset fragmentsRead seen : Int) (st : σ), Row sessionId buf offset slots →
      buf.length - offset < fuel → termBegin ≤ seen → seen ≤ termBegin + offset →
      controlledFrames buf handler fragmentLimit fuel (loopAt termBegin fragmentsRead seen offset st) =
        walk handler buf termBegin (termBegin + buf.length) (fragmentLimit - fragmentsRead) seen (termBegin + offset) st
            slots >>= fun w =>
          .ok (loopAt termBegin (fragmentsRead + fragmentCount w.slots) w.seen (offset + totalSpace w.slots) w.state) := by
  intro slots
  induction slots with
  | nil =>
    intro fuel offset fragmentsRead seen st hrow hfuel _ _
    have hin := hrow.inside
    rw [totalSpace_nil] at hin
    obtain ⟨fuel, rfl⟩ : ∃ k, fuel = k + 1 := ⟨fuel - 1, by omega⟩
    simp only [walk, ok_bind, fragmentCount_nil, totalSpace_nil, Int.add_zero]
    unfold controlledFrames
    split
    next hgo =>
      obtain ⟨length, hlength, hle⟩ := hrow.stops hgo.2
      simp only [loopAt, hlength, ok_bind, if_pos hle]
      rfl
    next => rfl
  | cons s slots ih =>
    intro fuel offset fragmentsRead seen st hrow hfuel hseen hseen'
    have hspace := Slot.space_bounds hrow.at_head.frameLength_ge
    have hin := hrow.head_inside
    have hoff := hrow.offset_nonneg
    have hsmall : buf.length ≤ 1073741824 := hrow.small
    obtain ⟨fuel, rfl⟩ : ∃ k, fuel = k + 1 := ⟨fuel - 1, by omega⟩
    -- the rest of the walk, with this slot before it
    have hrest : ∀ (read seen' : Int) (st' : σ), termBegin ≤ seen' → seen' ≤ termBegin + (offset + s.space) →
        read = (if s.isData then 1 else 0) →
        controlledFrames buf handler fragmentLimit fuel
            (loopAt termBegin (fragmentsRead + read) seen' (offset + s.space) st') =
          (walk handler buf termBegin (termBegin + buf.length)
              (if s.isData then fragmentLimit - fragmentsRead - 1 else fragmentLimit - fragmentsRead) seen'
              (termBegin + offset + s.space) st' slots >>= fun w => .ok { w with slots := s :: w.slots }) >>= fun w =>
            .ok (loopAt termBegin (fragmentsRead + fragmentCount w.slots) w.seen (offset + totalSpace w.slots) w.state) := by
      intro read seen' st' h h' hread
      have hleft : (if s.isData then fragmentLimit - fragmentsRead - 1 else fragmentLimit - fragmentsRead) =
          fragmentLimit - (fragmentsRead + read) := by
        rw [hread]
        split <;> omega
      rw [ih fuel (offset + s.space) (fragmentsRead + read) seen' st' hrow.tail (by omega) h h', hleft, bind_assoc,
        Int.add_assoc termBegin]
      congr 1
      funext w
      simp only [ok_bind, fragmentCount_cons, totalSpace_cons, hread, Int.add_assoc]
    by_cases hgo : fragmentsRead < fragmentLimit ∧ s.isPending = false
    · have hread : readable (termBegin + buf.length) (termBegin + offset, s) = true := by
        simp only [readable, hgo.2, Bool.not_false, Bool.and_true, decide_eq_true_eq]
        omega
      rw [controlledFrames_round hrow handler hgo.1 hgo.2, walk_cons (by omega) hread]
      cases hdata : s.isData with
      | false =>
        rw [handle_of_not_data handler st seen _ hdata, ok_bind, ok_bind]
        have h := hrest 0 seen st hseen (by omega) (by rw [hdata]; rfl)
        simp only [hdata, Bool.false_eq_true, if_false] at h
        simp only [answered, Bool.false_eq_true, if_false]
        exact h
      | true =>
        rw [bind_assoc]
        congr 1
        funext r
        obtain ⟨action, st'⟩ := r
        have h := fun seen' => hrest 1 seen' st'
        simp only [hdata, if_true] at h
        simp only [answered, if_true, loopAt_act st' lo (show termBegin + (offset + s.space) < _ by omega) hoff (by omega)
          (by omega) hseen hseen' action]
        cases action with
        | abort => simp [ok_bind]
        | «break» => simp [ok_bind, fragmentCount_cons, hdata]
        | commit => exact h _ (by omega) (by omega) trivial
        | «continue» => exact h _ hseen (by omega) trivial
    · have hnot : ¬(0 < fragmentLimit - fragmentsRead ∧
          readable (termBegin + buf.length) (termBegin + offset, s) = true) := by
        intro hread
        simp only [readable, Bool.and_eq_true, Bool.not_eq_true'] at hread
        exact hgo ⟨by omega, hread.2.2⟩
      rw [controlledFrames_halt hrow handler hgo, walk_cons_of_stuck hnot]
      simp [ok_bind]

end

/-! ## The poll -/

/-- A walk passes committed slots, the first ones, and the position it committed lies among them. -/
theorem walk_bounds {handler : ControlledFragmentHandler σ} {buf : Buffer} {termBegin bound : Int} :
    ∀ (slots : List Slot) (limit seen position : Int) (st : σ) (w : Walked σ),
      walk handler buf termBegin bound limit seen position st slots = .ok w → (∀ s ∈ slots, 0 < s.space) →
      seen ≤ position → (∃ rest, slots = w.slots ++ rest) ∧ seen ≤ w.seen ∧ w.seen ≤ position + totalSpace w.slots := by
  intro slots
  induction slots with
  | nil =>
    intro limit seen position st w hwalk _ hseen
    obtain rfl := Except.ok.inj hwalk
    exact ⟨⟨[], rfl⟩, Int.le_refl _, by simpa using hseen⟩
  | cons s slots ih =>
    intro limit seen position st w hwalk hpos hseen
    have hs := hpos s List.mem_cons_self
    have hrest := fun t ht => hpos t (List.mem_cons_of_mem s ht)
    by_cases hgo : 0 < limit ∧ readable bound (position, s) = true
    · rw [walk_cons hgo.1 hgo.2] at hwalk
      obtain ⟨⟨action, st'⟩, _, hanswered⟩ := ok_of_bind hwalk
      by_cases habort : action = .abort
      · subst habort
        obtain rfl := Except.ok.inj hanswered
        exact ⟨⟨s :: slots, rfl⟩, Int.le_refl _, by simpa using hseen⟩
      by_cases hbreak : action = .break
      · subst hbreak
        obtain rfl := Except.ok.inj hanswered
        refine ⟨⟨slots, rfl⟩, Int.le_refl _, ?_⟩
        rw [totalSpace_cons, totalSpace_nil]
        simp only
        omega
      rw [answered_on ⟨habort, hbreak⟩] at hanswered
      obtain ⟨w', hw', hcons⟩ := ok_of_bind hanswered
      obtain rfl := Except.ok.inj hcons
      have hnext : seen ≤ (if action = .commit then position + s.space else seen) ∧
          (if action = .commit then position + s.space else seen) ≤ position + s.space := by
        split <;> omega
      obtain ⟨⟨rest, hsplit⟩, hlo, hhi⟩ := ih _ _ _ _ w' hw' hrest hnext.2
      refine ⟨⟨rest, by rw [hsplit]; rfl⟩, Int.le_trans hnext.1 hlo, ?_⟩
      rw [totalSpace_cons]
      simp only
      omega
    · rw [walk_cons_of_stuck hgo] at hwalk
      obtain rfl := Except.ok.inj hwalk
      exact ⟨⟨s :: slots, rfl⟩, Int.le_refl _, by simpa using hseen⟩

/-- **A controlled poll is the walk** from the subscriber position to the end of the term. -/
theorem controlledPoll_eq {p : LogParams} {termBuffers : Int → Buffer} {sessionId position : Int} {slots : List Slot}
    (h : Holds p termBuffers sessionId position slots) (handler : ControlledFragmentHandler σ) (fragmentLimit : Int)
    (st : σ) :
    controlledPoll p termBuffers ⟨false, position⟩ handler fragmentLimit st =
      walk handler (bufferAt p termBuffers position) (termBegin p position) (termEnd p position) fragmentLimit position
          position st slots >>= fun w =>
        .ok (fragmentCount w.slots, ⟨false, position + totalSpace w.slots⟩, w.state) := by
  have hge := p.termLength_ge
  have hle := p.termLength_le
  have hmod := Int.emod_nonneg position (show p.termLength ≠ 0 by omega)
  have hlo := h.position_nonneg
  have hhi := h.position_le
  rw [p.maxPossiblePosition_eq] at hhi
  have hlength := h.length_eq
  have hbegin : 0 ≤ termBegin p position := by
    have := Int.mul_ediv_add_emod position p.termLength
    have := Int.mul_nonneg (show 0 ≤ p.termLength by omega) (Int.ediv_nonneg hlo (show 0 ≤ p.termLength by omega))
    unfold termBegin
    omega
  have hoff : position - termBegin p position = position % p.termLength := by
    unfold termBegin
    omega
  have hplace : termBegin p position + position % p.termLength = position := Int.sub_add_cancel _ _
  have hloop := controlledFrames_eq handler fragmentLimit hbegin
    (by rw [hlength]; unfold termBegin; omega) slots ((bufferAt p termBuffers position).length.toNat + 1)
    (position % p.termLength) 0 position st h.row (by omega) (by omega) (by omega)
  rw [hplace, Int.sub_zero, hlength, ← termEnd] at hloop
  have hpoll : controlledPoll p termBuffers ⟨false, position⟩ handler fragmentLimit st =
      controlledFrames (bufferAt p termBuffers position) handler fragmentLimit (p.termLength.toNat + 1)
          (loopAt (termBegin p position) 0 position (position % p.termLength) st) >>= fun l =>
        .ok (l.fragmentsRead, l.image.advance l.initialPosition
          (i64 (l.initialPosition + i32 (l.offset - l.initialOffset))), l.state) := by
    unfold bufferAt at hlength
    simp only [controlledPoll, Bool.false_eq_true, if_false, termOffset_eq, indexByPosition_eq p hlo h.position_le,
      ok_bind, hlength, bufferAt, loopAt, hoff]
    rfl
  rw [hpoll, hloop, bind_assoc]
  cases hwalk : walk handler (bufferAt p termBuffers position) (termBegin p position) (termEnd p position) fragmentLimit
      position position st slots with
  | error e => rfl
  | ok w =>
    obtain ⟨⟨rest, hsplit⟩, hseen, hseen'⟩ := walk_bounds slots _ _ _ _ w hwalk h.row.laid.space_pos (Int.le_refl _)
    have hin := h.row.inside
    have hlaid := h.row.laid
    rw [hsplit] at hlaid hin
    have hpassed := hlaid.of_append.2.le
    rw [totalSpace_append] at hin hpassed
    rw [hlength] at hin
    simp only [ok_bind, loopAt, Int.zero_add]
    have hmove : i64 (w.seen + i32 (position % p.termLength + totalSpace w.slots - (w.seen - termBegin p position))) =
        position + totalSpace w.slots := by
      rw [i32_eq (by omega), i64_eq (by omega)]
      omega
    rw [hmove, advance]
    split
    next => rfl
    next hnot =>
      have hsame : w.seen = position + totalSpace w.slots := by omega
      rw [hsame]

end AeronGo.Image
