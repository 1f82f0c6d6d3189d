import AeronGo.Laws.Publication.Rotation

/-!
# The end of the stream

A log has `2 ^ 31` terms. A call that trips the last one must be refused and must not rotate: the
next term count would wrap, and Go's remainder of a negative count is no partition. `newPosition`
decides this from the tail that the call read before it claimed, and adds the offset to a position
that already contains it. So the decision is right exactly when that offset is past the middle of
the last term, and not past the end of the term before it (`DetectsEnd`). The runs start at rest in
the last term but one.
-/

namespace AeronGo.Publication

open Machine LogBuffer Util

variable {p : LogParams}

/-! ## The calls -/

/-- The call fails no size check. -/
def Call.Checked (p : LogParams) (call : Call) : Prop :=
  call.overflows = false ∧ call.refused p = false ∧ call.tooLong p = false

instance (call : Call) : Decidable (call.Checked p) := inferInstanceAs (Decidable (_ ∧ _ ∧ _))

variable {call : Call} {n raw : Int} {pc : Pc}

theorem Call.Checked.accepted (h : call.Checked p) : call.Accepted p :=
  accepted_of_checks h.1 h.2.1 h.2.2

/-- A frame is longer than its payload. -/
theorem Call.length_lt_required (h : call.Accepted p) : call.length < call.required p := by
  have hlo := h.nonneg
  cases hs : call.single p with
  | true =>
    obtain ⟨hreq, _⟩ := required_single h hs
    omega
  | false =>
    obtain ⟨hreq, _⟩ := required_fragmented h hs
    have hge := p.maxPayloadLength_ge
    have hgt := lt_length_of_single hs
    have hrest := (messageSpace_bounds hge (show 0 ≤ call.length - p.maxPayloadLength by omega)).1
    rw [hreq, ← Int.sub_add_cancel call.length p.maxPayloadLength, messageSpace_add hge]
    omega

/-! ## Positions near the end -/

/-- One of the last two terms. -/
def Late (n : Int) : Prop := n = 2147483646 ∨ n = lastTerm

theorem Late.bounds (h : Late n) : 2147483646 ≤ n ∧ n ≤ lastTerm := by
  unfold Late lastTerm at *
  omega

theorem tailPosition_late (hn : Late n) (h : TailIn p n raw) :
    tailPosition p raw = n * p.termLength + tailOffset raw := by
  obtain ⟨hlo, hhi⟩ := hn.bounds
  exact tailPosition_eq (by omega) hhi h

/-- A position a little behind the tail does not wrap. -/
theorem tailPosition_late_add {k : Int} (hn : Late n) (h : TailIn p n raw) (lo : 0 ≤ k) (hi : k < 2147483648) :
    i64 (tailPosition p raw + k) = n * p.termLength + tailOffset raw + k := by
  have hge := p.termLength_ge
  have hle := p.termLength_le
  have hoff := tailOffset_nonneg raw
  have hlt := h.2
  rw [tailPosition_late hn h]
  rcases hn with rfl | rfl
  · exact i64_eq (by omega)
  · exact i64_eq (by unfold lastTerm; omega)

/-- What `newPosition` finds after a trip. -/
theorem exceeds_iff (hn : Late n) (h : TailIn p n raw) :
    p.maxPossiblePosition < i64 (tailPosition p raw + tailOffset raw) ↔
      if n = lastTerm then p.termLength < 2 * tailOffset raw else p.termLength < tailOffset raw := by
  rw [tailPosition_late_add hn h (tailOffset_nonneg raw) h.2, p.maxPossiblePosition_eq]
  have hoff := tailOffset_nonneg raw
  have hge := p.termLength_ge
  rcases hn with rfl | rfl
  · rw [if_neg (by decide)]
    omega
  · rw [if_pos rfl]
    unfold lastTerm
    omega

/-- What `backPressureStatus` finds. -/
theorem pressed_iff {length : Int} (hn : Late n) (h : TailIn p n raw) (lo : 0 ≤ length)
    (hi : length < 2147483648) :
    p.maxPossiblePosition ≤ i64 (tailPosition p raw + length) ↔
      (if n = lastTerm then p.termLength else 2 * p.termLength) ≤ tailOffset raw + length := by
  rw [tailPosition_late_add hn h lo hi, p.maxPossiblePosition_eq]
  rcases hn with rfl | rfl
  · rw [if_neg (by decide)]
    omega
  · rw [if_pos rfl]
    unfold lastTerm
    omega

/-! ## The runs -/

/-- A log at rest in its last term but one. -/
structure NearEnd (p : LogParams) (s : State) : Prop where
  count : s.activeTermCount = 2147483646
  terms : s.terms 0 = 2147483646 ∧ s.terms 1 = 2147483644 ∧ s.terms 2 = 2147483645
  partition : ∀ i, 0 ≤ i → i < 3 → PartitionSound p i (s.terms i) (s.tails i)
  idle : ∀ i, s.publishers i = .idle

/-- The calls pass the size checks, and no tail offset reaches `2 ^ 31`. -/
def Within (p : LogParams) (s : State) (a : Action) : Prop :=
  StaysBounded p s a ∧ match a with
    | .invoke _ call => call.Checked p
    | _ => True

instance (s : State) : (a : Action) → Decidable (Within p s a)
  | .invoke _ _ => inferInstanceAs (Decidable (_ ∧ _))
  | .driver .. | .step .. => inferInstanceAs (Decidable (_ ∧ True))

/-- The tail that a call read tells whether its term is the last one. A call that failed to append
read past the middle of the last term, or not past the end of the one before; a call that is held back
in the term before read less than a term past its end. -/
def DetectsEnd (p : LogParams) (s : State) : Pc → Prop
  | .readTail call limit termCount => termCount ≠ lastTerm → limit ≤ tailPosition p (s.tails 0) →
      tailOffset (s.tails 0) + call.length < 2 * p.termLength
  | .write [] _ a => a.resultingOffset ≤ 0 →
      (a.termCount = lastTerm → p.termLength < 2 * tailOffset a.rawTail) ∧
        (a.termCount ≠ lastTerm → tailOffset a.rawTail ≤ p.termLength)
  | _ => True

instance (s : State) : (pc : Pc) → Decidable (DetectsEnd p s pc)
  | .readTail _ _ _ => inferInstanceAs (Decidable (_ → _ → _))
  | .write [] _ _ => inferInstanceAs (Decidable (_ → _ ∧ _))
  | .write (_ :: _) _ _ | .idle | .entry _ | .readLimit _ | .readCount _ _ | .readConnected | .add _ _ _
  | .rotateRead _ _ | .rotateSet _ _ _ | .rotateCount _ | .panicked => .isTrue trivial

/-- The steps of a run in which every call tells the end of the stream. -/
def Detecting (p : LogParams) (s : State) (a : Action) : Prop :=
  Within p s a ∧ match a with
    | .step i => DetectsEnd p s (s.publishers i)
    | _ => True

instance (s : State) : (a : Action) → Decidable (Detecting p s a)
  | .invoke .. | .driver .. => inferInstanceAs (Decidable (_ ∧ True))
  | .step _ => inferInstanceAs (Decidable (_ ∧ _))

/-- The runs from the last term but one whose steps meet a condition. -/
def endingSystem (p : LogParams) (P : State → Action → Prop) : System State Action :=
  (System.ofStep (NearEnd p) (step p)).guard P

/-- The message of the call at this place did not fit in what remained of the last term: when the call
claimed, or else when it read the tail. -/
def NoRoom (p : LogParams) (s : State) : Pc → Prop
  | .readTail call _ termCount => termCount = lastTerm ∧ s.terms 1 = lastTerm ∧
      p.termLength < tailOffset (s.tails 1) + call.required p
  | .write _ _ a => a.termCount = lastTerm ∧
      ∃ c ∈ s.claims, c.term = lastTerm ∧ c.offset = tailOffset a.claimed ∧ p.termLength < c.stop
  | _ => False

/-- The partition that the publisher's next step indexes. -/
def Pc.index? : Pc → Option Int
  | .readTail _ _ termCount => some (indexByTermCount termCount)
  | .add _ termCount _ => some (indexByTermCount termCount)
  | .rotateRead termCount _ => some (indexByTermCount (i32 (termCount + 1)))
  | .rotateSet termCount _ _ => some (indexByTermCount (i32 (termCount + 1)))
  | _ => none

/-- A step misses the end: it refuses a call that still has room, or takes a publisher to where its
next step panics. -/
def Misses (p : LogParams) (s : State) (i : Nat) (t : State) : Prop :=
  t.returned = s.returned ++ [⟨maxPositionExceeded, [], none⟩] ∧ ¬ NoRoom p s (s.publishers i) ∨
    ∃ u, step p t (.step i) = some u ∧ u.publishers i = .panicked

/-! ## The invariant -/

/-- The log has entered one of its last two terms. -/
def Entered (s : State) (n : Int) : Prop := n = 2147483646 ∨ n = lastTerm ∧ s.terms 1 = lastTerm

variable {s t : State} {i : Nat}

theorem Entered.late (h : Entered s n) : Late n := h.imp_right And.left

/-- What a publisher's place says near the end. -/
def PcEnding (p : LogParams) (s : State) : Pc → Prop
  | .entry call => call.Checked p
  | .readLimit call => call.Checked p
  | .readCount call _ => call.Checked p
  | .readTail call _ n => call.Checked p ∧ Entered s n
  | .add call n raw => call.Checked p ∧ Entered s n ∧ TailIn p n raw
  | .write _ _ a => Entered s a.termCount ∧ TailIn p a.termCount a.rawTail ∧
      TailIn p a.termCount a.claimed ∧
      (a.resultingOffset ≤ 0 → ∃ c ∈ s.claims, c.term = a.termCount ∧
        c.offset = tailOffset a.claimed ∧ p.termLength < c.stop)
  | .rotateRead n id => n = 2147483646 ∧ id = i32 (p.initialTermId + 2147483646)
  | .rotateSet n id raw => n = 2147483646 ∧ id = i32 (p.initialTermId + 2147483646) ∧
      termID raw = i32 (p.initialTermId + 2147483644)
  | .rotateCount n => n = 2147483646 ∧ s.terms 1 = lastTerm
  | .panicked => False
  | .idle => True
  | .readConnected => True

structure EndSound (p : LogParams) (s : State) : Prop where
  partition : ∀ i, 0 ≤ i → i < 3 → PartitionSound p i (s.terms i) (s.tails i)
  penultimate : s.terms 0 = 2147483646
  next : s.terms 1 = 2147483644 ∨ s.terms 1 = lastTerm
  earlier : s.terms 2 = 2147483645
  count : Entered s s.activeTermCount
  publishers : ∀ i, PcEnding p s (s.publishers i)

theorem NearEnd.endSound (h : NearEnd p s) : EndSound p s := by
  refine ⟨h.partition, h.terms.1, Or.inl h.terms.2.1, h.terms.2.2, Or.inl h.count, ?_⟩
  intro i
  rw [h.idle i]
  trivial

/-- What is said of a publisher survives more claims and the entry into the last term. -/
theorem PcEnding.mono (h : PcEnding p s pc)
    (hterms : s.terms 1 = lastTerm → t.terms 1 = lastTerm) (hclaims : ∀ c ∈ s.claims, c ∈ t.claims) :
    PcEnding p t pc := by
  have hent : ∀ n, Entered s n → Entered t n := fun n hn => hn.imp_right (And.imp_right hterms)
  cases pc with
  | readTail call limit n => exact ⟨h.1, hent n h.2⟩
  | add call n raw => exact ⟨h.1, hent n h.2.1, h.2.2⟩
  | write left done a =>
    obtain ⟨hcount, hraw, hclaimed, hfail⟩ := h
    refine ⟨hent _ hcount, hraw, hclaimed, ?_⟩
    intro hneg
    obtain ⟨c, hc, hrest⟩ := hfail hneg
    exact ⟨c, hclaims c hc, hrest⟩
  | rotateCount n => exact ⟨h.1, hterms h.2⟩
  | _ => exact h

/-- The partition of an entered term. -/
theorem EndSound.active (h : EndSound p s) (hn : Entered s n) :
    0 ≤ indexByTermCount n ∧ indexByTermCount n < 3 ∧ s.terms (indexByTermCount n) = n ∧
      TailIn p n (s.tails (indexByTermCount n)) := by
  rcases hn with rfl | ⟨rfl, hterm⟩
  · have hpart := h.partition 0 (by decide) (by decide)
    rw [h.penultimate] at hpart
    exact ⟨by decide, by decide, h.penultimate, hpart.tailIn⟩
  · have hpart := h.partition 1 (by decide) (by decide)
    rw [hterm] at hpart
    exact ⟨by decide, by decide, hterm, hpart.tailIn⟩

/-- The term id that the rotation out of the last term but one compares. -/
theorem expected_eq : i32 (i32 (i32 (p.initialTermId + 2147483646) + 1) - 3) =
    i32 (p.initialTermId + 2147483644) := by
  rw [i32_add_left, i32_sub_left]
  congr 1
  ring

/-- The last term is not the one that the rotation into it compares. -/
theorem lastTerm_ne_expected : i32 (p.initialTermId + lastTerm) ≠ i32 (p.initialTermId + 2147483644) := by
  rw [Ne, i32_eq_iff]
  unfold lastTerm
  omega

/-! ## What a step does near the end -/

inductive Ending (p : LogParams) (s : State) (i : Nat) (t : State) : Prop
  | goto (pc : Pc) (h : t = s.goto i pc) (hpc : PcEnding p s pc)
  | answer (value : Int) (h : t = s.answer i value)
      (hv : value = maxPositionExceeded → NoRoom p s (s.publishers i))
  | finish (done : List FrameHeader) (a : Append) (h : t = returnStep p s i done a)
  | store (f : FrameHeader) (left done : List FrameHeader) (a : Append)
      (hpc : s.publishers i = .write (f :: left) done a) (h : t = storeStep s i f left done a)
  | claim (call : Call) (n raw : Int) (hpc : s.publishers i = .add call n raw)
      (h : t = addStep p s i call n raw)
  | enter (htail : termID (s.tails 1) = i32 (p.initialTermId + 2147483644))
      (h : t = enterStep s i 2147483646 (i32 (p.initialTermId + 2147483646)))
  | count (hterm : s.terms 1 = lastTerm) (h : t = { s with activeTermCount := lastTerm }.answer i adminAction)

section Ending

variable {s : State} {i : Nat}

/-- Near the end no call panics: it has passed its checks, and rotates out of the last term but one only. -/
theorem PcEnding.not_panics {pc : Pc} (hs : EndSound p s) (h : PcEnding p s pc) : ¬ pc.Panics p := by
  cases pc with
  | entry call => rintro (hover | hrefused) <;> simp_all [PcEnding, Call.Checked]
  | readTail call limit n =>
    rintro (hindex | hlong)
    · exact Int.not_lt.mpr (hs.active h.2).1 hindex
    · rw [h.1.2.2] at hlong
      cases hlong
  | rotateRead n id =>
    rw [h.1]
    exact (by decide : ¬ indexByTermCount (i32 (2147483646 + 1)) < 0)
  | _ => exact id

/-- A call that is refused at its read of the tail had no room in the last term. -/
theorem ending_exceeds {limit n : Int} (hs : EndSound p s) (h : PcEnding p s (.readTail call limit n))
    (hd : DetectsEnd p s (.readTail call limit n)) (hlimit : limit ≤ tailPosition p (s.tails (indexByTermCount n)))
    (hmax : p.maxPossiblePosition ≤ i64 (tailPosition p (s.tails (indexByTermCount n)) + call.length)) :
    NoRoom p s (.readTail call limit n) := by
  obtain ⟨hchecked, hn⟩ := h
  obtain ⟨_, _, _, htail⟩ := hs.active hn
  have hacc := hchecked.accepted
  have hlen := Call.length_lt_required hacc
  have hreq := (Call.required_bounds hacc).2.1
  have hmax := (pressed_iff hn.late htail hacc.nonneg (by omega)).mp hmax
  rcases hn with rfl | ⟨rfl, hterm⟩
  · -- the last term but one: the condition excludes this
    have hlt := hd (by decide) hlimit
    rw [if_neg (by decide)] at hmax
    exact absurd hmax (Int.not_le.mpr hlt)
  · rw [if_pos rfl] at hmax
    refine ⟨rfl, hterm, ?_⟩
    change p.termLength ≤ tailOffset (s.tails 1) + call.length at hmax
    omega

theorem ending_step {t : State} (hs : EndSound p s) (hd : DetectsEnd p s (s.publishers i))
    (ht : step p s (.step i) = some t) : Ending p s i t := by
  have hpc := hs.publishers i
  have hmove := move_of_step ht
  generalize hi : s.publishers i = pc at hmove hpc hd
  cases hmove with
  | panics h => exact absurd h (hpc.not_panics hs)
  | closed | stale | counted => exact .answer _ rfl (absurd · (by decide))
  | enters | readLimit => exact .goto _ rfl hpc
  | readCount => exact .goto _ rfl ⟨hpc, hs.count⟩
  | exceeds hlimit hmax => exact .answer _ rfl fun _ => hi ▸ ending_exceeds hs hpc hd hlimit hmax
  | pressed => exact .goto _ rfl trivial
  | passes => exact .goto _ rfl ⟨hpc.1, hpc.2, (hs.active hpc.2).2.2.2⟩
  | readConnected =>
    refine .answer _ rfl fun hv => ?_
    split at hv <;> exact absurd hv (by decide)
  | claims => exact .claim _ _ _ hi rfl
  | stores => exact .store _ _ _ _ hi rfl
  | returns => exact .finish _ _ rfl
  | ends hneg hmax =>
    obtain ⟨hn, hraw, _, hfail⟩ := hpc
    refine .answer _ rfl fun _ => ?_
    rw [hi]
    rw [exceeds_iff hn.late hraw] at hmax
    split at hmax
    next he =>
      obtain ⟨c, hc, hterm, hrest⟩ := hfail hneg
      exact ⟨he, c, hc, hterm.trans he, hrest⟩
    next he => exact absurd hmax (Int.not_lt.mpr ((hd hneg).2 he))
  | rotates hneg hmax =>
    obtain ⟨hn, hraw, hclaimed, _⟩ := hpc
    rw [exceeds_iff hn.late hraw] at hmax
    split at hmax
    next he => exact absurd ((hd hneg).1 he) hmax
    next he =>
      have hcount := hn.late.resolve_right he
      exact .goto _ rfl ⟨hcount, by rw [hclaimed.1, hcount]⟩
  | rotated _ hne =>
    obtain ⟨rfl, rfl⟩ := hpc
    have hpart := hs.partition 1 (by decide) (by decide)
    refine .goto _ rfl ⟨rfl, hs.next.resolve_left fun hterm => hne ?_⟩
    rw [hterm] at hpart
    exact expected_eq.trans hpart.termId.symm
  | readNext _ hid =>
    obtain ⟨rfl, rfl⟩ := hpc
    exact .goto _ rfl ⟨rfl, rfl, hid.symm.trans expected_eq⟩
  | turns =>
    obtain ⟨rfl, rfl, hid⟩ := hpc
    exact .enter hid rfl
  | overtaken => exact .goto _ rfl ⟨hpc.1, hpc.2.1⟩
  | counts =>
    obtain ⟨rfl, hterm⟩ := hpc
    exact .count hterm rfl

end Ending

/-! ## The invariant is kept -/

theorem EndSound.goto (h : EndSound p s) (hpc : PcEnding p s pc) :
    EndSound p (s.goto i pc) :=
  { h with publishers := fun j => (forall_moved h.publishers hpc j).mono id fun _ => id }

/-- The returned values are no part of the invariant. -/
theorem EndSound.answered {r : Returned} (h : EndSound p s) :
    EndSound p { s.goto i .idle with returned := s.returned ++ [r] } :=
  { h.goto (show PcEnding p s .idle from trivial) with }

theorem EndSound.store {f : FrameHeader} {left done : List FrameHeader} {a : Append}
    (h : EndSound p s) (hi : s.publishers i = .write (f :: left) done a) :
    EndSound p (storeStep s i f left done a) := by
  have hhere : PcEnding p s (.write (f :: left) done a) := hi ▸ h.publishers i
  have hpc : PcEnding p s (.write left (done ++ [f]) a) := hhere
  exact { h with publishers := fun j => (forall_moved h.publishers hpc j).mono id fun _ => id }

theorem EndSound.claim (h : EndSound p s)
    (hi : s.publishers i = .add call n raw)
    (hb : ∀ j, 0 ≤ j → j < 3 → tailOffset ((addStep p s i call n raw).tails j) < 2147483648) :
    EndSound p (addStep p s i call n raw) := by
  obtain ⟨hchecked, hn, hraw⟩ : PcEnding p s (.add call n raw) := hi ▸ h.publishers i
  obtain ⟨_, _, hterm, htail⟩ := h.active hn
  obtain ⟨hpos, hreq, haligned⟩ := Call.required_bounds hchecked.accepted
  have hold : ∀ c ∈ s.claims, c ∈ (addStep p s i call n raw).claims := fun c hc =>
    mem_addStep_claims.mpr (Or.inl hc)
  refine { h with partition := ?_, publishers := ?_ }
  · intro j hj hj'
    have hbj := hb j hj hj'
    have hpart := h.partition j hj hj'
    show PartitionSound p j (s.terms j) (if j = indexByTermCount n then _ else s.tails j)
    by_cases he : j = indexByTermCount n
    · rw [if_pos he]
      subst he
      obtain ⟨hoff, hadd⟩ := hpart.add (Int.le_of_lt hpos) hreq haligned
      refine hadd ?_
      rw [← hoff]
      simpa [addStep] using hbj
    · rw [if_neg he]
      exact hpart
  · refine forall_moved (fun j => (h.publishers j).mono id hold) ?_
    refine ⟨hn, hraw, htail, ?_⟩
    intro hfail
    exact ⟨_, mem_addStep_claims.mpr (Or.inr rfl), hterm, rfl,
      (appendResult_nonpos hchecked.accepted _).mp hfail⟩

theorem EndSound.enter (h : EndSound p s)
    (htail : termID (s.tails 1) = i32 (p.initialTermId + 2147483644)) :
    EndSound p (enterStep s i 2147483646 (i32 (p.initialTermId + 2147483646))) := by
  have hpart := h.partition 1 (by decide) (by decide)
  have hterm : s.terms 1 = 2147483644 := by
    refine h.next.resolve_right fun hlast => ?_
    rw [hlast] at hpart
    exact lastTerm_ne_expected (hpart.termId.symm.trans htail)
  have hlast : s.terms 1 + 3 = lastTerm := by rw [hterm]; rfl
  refine ⟨?_, h.penultimate, Or.inr hlast, h.earlier, ?_, ?_⟩
  · intro j hj hj'
    show PartitionSound p j (if j = 1 then s.terms j + 3 else s.terms j)
      (if j = 1 then rawTailOf (i32 (i32 (p.initialTermId + 2147483646) + 1)) else s.tails j)
    by_cases he : j = 1
    · subst he
      exact hpart.enter (expected_eq.trans htail.symm)
    · rw [if_neg he, if_neg he]
      exact h.partition j hj hj'
  · exact h.count.imp_right (And.imp_right fun _ => hlast)
  · refine forall_moved (fun j => (h.publishers j).mono (fun _ => hlast) fun _ => id) ?_
    exact ⟨rfl, hlast⟩

theorem EndSound.counted (h : EndSound p s) (hterm : s.terms 1 = lastTerm) :
    EndSound p { s with activeTermCount := lastTerm } :=
  { h with count := .inr ⟨rfl, hterm⟩, publishers := fun j => (h.publishers j).mono id fun _ => id }

theorem EndSound.ending (h : EndSound p s) (hb : StaysBounded p s (.step i))
    (ht : Publication.step p s (.step i) = some t) (he : Ending p s i t) : EndSound p t := by
  cases he with
  | goto pc he hpc => exact he ▸ h.goto hpc
  | answer value he hv | finish done a he => exact he ▸ h.answered
  | store f left done a hpc he => exact he ▸ h.store hpc
  | claim call n raw hpc he =>
    subst he
    exact h.claim hpc fun j lo hi => tailsBounded_of_step hb ht lo hi
  | enter htail he => exact he ▸ h.enter htail
  | count hterm he => exact he ▸ (h.counted hterm).answered

theorem EndSound.step {a : Action} (h : EndSound p s) (hd : Detecting p s a)
    (ht : Publication.step p s a = some t) : EndSound p t := by
  cases a with
  | invoke i call =>
    simp only [Publication.step] at ht
    split at ht
    · cases ht
      exact h.goto hd.1.2
    · cases ht
  | driver limit connected closed =>
    cases ht
    exact { h with publishers := fun j => (h.publishers j).mono id fun _ => id }
  | step i => exact h.ending hd.1.1 ht (ending_step h hd.2 ht)

theorem endSound_of_reachable (h : (endingSystem p (Detecting p)).Reachable s) : EndSound p s := by
  refine h.invariant (I := EndSound p) (fun _ => NearEnd.endSound) ?_
  intro s a t hs hstep
  exact hs.step hstep.1 hstep.2

/-! ## The condition is exact -/

/-- A step that does not meet the condition refuses a call too early or starts to rotate out of the
last term. -/
theorem missed_of_not_detects (hs : EndSound p s)
    (hd : ¬ DetectsEnd p s (s.publishers i)) (ht : step p s (.step i) = some t) :
    t = s.answer i maxPositionExceeded ∧ ¬ NoRoom p s (s.publishers i) ∨
      ∃ id, t = s.goto i (.rotateRead lastTerm id) := by
  have hpc := hs.publishers i
  have hmove := move_of_step ht
  generalize s.publishers i = pc at hmove hpc hd
  cases hmove with
  | panics h => exact absurd h (hpc.not_panics hs)
  | stale hne =>
    -- near the end the tail that a call reads is in the term it has read
    have htail := (hs.active hpc.2).2.2.2
    refine absurd ?_ hne
    rw [htail.1, i32_sub_left, add_sub_cancel_left]
    rcases hpc.2.late with rfl | rfl <;> rfl
  | exceeds =>
    obtain ⟨hne, _⟩ := Classical.not_imp.mp hd
    exact .inl ⟨rfl, fun h => hne h.1⟩
  | pressed hmax =>
    obtain ⟨hne, hrest⟩ := Classical.not_imp.mp hd
    obtain ⟨_, hfar⟩ := Classical.not_imp.mp hrest
    obtain rfl := hpc.2.late.resolve_right hne
    have hacc := hpc.1.accepted
    have hlen := Call.length_lt_required hacc
    have hreq := (Call.required_bounds hacc).2.1
    refine absurd ?_ hmax
    exact (pressed_iff hpc.2.late (hs.active hpc.2).2.2.2 hacc.nonneg (by omega)).mpr (Int.not_lt.mp hfar)
  | passes _ hlimit =>
    obtain ⟨hne, hrest⟩ := Classical.not_imp.mp hd
    obtain rfl := hpc.2.late.resolve_right hne
    exact absurd (Classical.not_imp.mp hrest).1 hlimit
  | returns hpos => exact absurd (fun hneg => absurd hpos (Int.not_lt.mpr hneg)) hd
  | ends hneg hmax =>
    obtain ⟨hn, hraw, _, _⟩ := hpc
    refine .inl ⟨rfl, fun h => hd fun _ => ⟨fun he => ?_, absurd h.1⟩⟩
    rwa [exceeds_iff hn.late hraw, if_pos he] at hmax
  | rotates hneg hmax =>
    obtain ⟨hn, hraw, _, _⟩ := hpc
    rw [exceeds_iff hn.late hraw] at hmax
    split at hmax
    next he => exact .inr ⟨_, by rw [he]⟩
    next he => exact absurd (fun _ => ⟨fun h => absurd h he, fun _ => Int.not_lt.mp hmax⟩) hd
  | _ => exact absurd trivial hd

/-- A publisher that starts to rotate out of the last term panics. -/
theorem rotateRead_panics (s : State) (i : Nat) (id : Int) :
    step p (s.goto i (.rotateRead lastTerm id)) (.step i) =
      some ((s.goto i (.rotateRead lastTerm id)).goto i .panicked) := by
  have hpc : (s.goto i (.rotateRead lastTerm id)).publishers i = .rotateRead lastTerm id := if_pos rfl
  have hindex : indexByTermCount (i32 (lastTerm + 1)) < 0 := by decide
  simp only [step, hpc, publisherStep, rotateReadStep, if_pos hindex]

/-- A call is refused near the end only for want of room. -/
theorem Ending.justified (h : Ending p s i t)
    (hret : t.returned = s.returned ++ [⟨maxPositionExceeded, [], none⟩]) : NoRoom p s (s.publishers i) := by
  have hsame : s.returned ≠ s.returned ++ [⟨maxPositionExceeded, [], none⟩] := by simp
  cases h with
  | goto pc he hpc => subst he; exact absurd hret hsame
  | answer value he hv =>
    subst he
    have hlast := List.append_cancel_left hret
    simp only [List.cons.injEq, Returned.mk.injEq, and_true] at hlast
    exact hv hlast
  | finish done a he =>
    subst he
    have hlast := List.append_cancel_left hret
    simp at hlast
  | store f left done a hpc he => subst he; exact absurd hret hsame
  | claim call n raw hpc he => subst he; exact absurd hret hsame
  | enter htail he => subst he; exact absurd hret hsame
  | count hterm he =>
    subst he
    have hlast := List.append_cancel_left hret
    simp [adminAction, maxPositionExceeded] at hlast

/-- Nothing panics in the next step. -/
theorem EndSound.not_panicked (h : EndSound p s)
    (ht : Publication.step p s (.step i) = some t) : t.publishers i ≠ .panicked := by
  by_cases hd : DetectsEnd p s (s.publishers i)
  · have hself : ∀ pc : Pc, pc ≠ .panicked → (if i = i then pc else s.publishers i) ≠ .panicked := by
      intro pc hne
      rwa [if_pos rfl]
    cases ending_step h hd ht with
    | goto pc he hpc => exact he ▸ hself pc fun hp => by rw [hp] at hpc; exact hpc
    | answer value he hv | finish done a he | count hterm he => exact he ▸ hself .idle nofun
    | store f left done a hpc he | claim call n raw hpc he => exact he ▸ hself (.write _ _ _) nofun
    | enter htail he => exact he ▸ hself (.rotateCount _) nofun
  · rcases missed_of_not_detects h hd ht with ⟨he, _⟩ | ⟨id, he⟩
    · rw [he]
      exact (if_pos rfl).trans_ne nofun
    · rw [he]
      exact (if_pos rfl).trans_ne nofun

/-- The condition on a step is exactly that it does not miss the end. -/
theorem EndSound.detects_iff (h : EndSound p s) (hb : StaysBounded p s (.step i))
    (ht : Publication.step p s (.step i) = some t) :
    DetectsEnd p s (s.publishers i) ↔ ¬ Misses p s i t := by
  constructor
  · intro hd hmiss
    have hending := ending_step h hd ht
    rcases hmiss with ⟨hret, hroom⟩ | ⟨u, hu, hpanic⟩
    · exact hroom (hending.justified hret)
    · exact (h.ending hb ht hending).not_panicked hu hpanic
  · intro hmiss
    by_contra hd
    refine hmiss ?_
    rcases missed_of_not_detects h hd ht with ⟨he, hroom⟩ | ⟨id, he⟩
    · exact Or.inl ⟨he ▸ rfl, hroom⟩
    · exact Or.inr ⟨_, he ▸ rotateRead_panics s i id, if_pos rfl⟩

/-- The partition index of every access is in range. -/
theorem PcEnding.index (h : PcEnding p s pc) {k : Int} (hk : pc.index? = some k) :
    0 ≤ k ∧ k < 3 := by
  have hlate : ∀ n, Late n → 0 ≤ indexByTermCount n ∧ indexByTermCount n < 3 := by
    rintro n (rfl | rfl) <;> decide
  cases pc with
  | readTail call limit n => cases hk; exact hlate n h.2.late
  | add call n raw => cases hk; exact hlate n h.2.1.late
  | rotateRead n id | rotateSet n id raw => cases hk; rw [h.1]; decide
  | _ => cases hk

/-- In every run in which each call tells the end of the stream from the tail it read, no publisher
panics, every partition index is in range, the log does not go past its last term, and the next step
of a publisher misses the end exactly if it breaks the condition. -/
theorem end_of_stream_safe {s : State} (h : (endingSystem p (Detecting p)).Reachable s) :
    (∀ i, s.publishers i ≠ .panicked ∧ ∀ k, (s.publishers i).index? = some k → 0 ≤ k ∧ k < 3) ∧
      (2147483646 ≤ s.activeTermCount ∧ s.activeTermCount ≤ lastTerm ∧
        ∀ j, 0 ≤ j → j < 3 → s.terms j ≤ lastTerm) ∧
      ∀ i t, Within p s (.step i) → step p s (.step i) = some t →
        (DetectsEnd p s (s.publishers i) ↔ ¬ Misses p s i t) := by
  have hs := endSound_of_reachable h
  refine ⟨?_, ⟨hs.count.late.bounds.1, hs.count.late.bounds.2, ?_⟩, ?_⟩
  · intro i
    have hpc := hs.publishers i
    refine ⟨?_, fun k hk => hpc.index hk⟩
    intro hp
    rw [hp] at hpc
    exact hpc
  · intro j lo hi
    obtain rfl | rfl | rfl : j = 0 ∨ j = 1 ∨ j = 2 := by omega
    · rw [hs.penultimate]; decide
    · rcases hs.next with hn | hn
      · rw [hn]; decide
      · exact Int.le_of_eq hn
    · rw [hs.earlier]; decide
  · intro i t hw ht
    exact hs.detects_iff hw.1 ht

/-! ### Runs at the end of a log of 64 KiB terms -/

/-- A log at rest at an offset of its last term but one. -/
def State.ending (p : LogParams) (offset : Int) : State :=
  let terms : Int → Int := fun j => if j = 0 then 2147483646 else j + 2147483643
  { State.initial p with
    tails := fun j => i64 (rawTailOf (i32 (p.initialTermId + terms j)) + if j = 0 then offset else 0)
    activeTermCount := 2147483646
    terms := terms }

theorem nearEnd_ending (p : LogParams) (offset : Int) (lo : 0 ≤ offset) (hi : offset < 2147483648)
    (ha : offset % 32 = 0) : NearEnd p (State.ending p offset) := by
  refine ⟨rfl, ⟨rfl, rfl, rfl⟩, ?_, fun _ => rfl⟩
  intro j hj hj'
  have hres : (if j = 0 then 2147483646 else j + 2147483643) % 3 = j := by split <;> omega
  have hpart := PartitionSound.initial p hres
  have hzero := tailOffset_rawTailOf (i32_range (p.initialTermId + if j = 0 then 2147483646 else j + 2147483643))
  have hdelta : ∀ d, 0 ≤ d → d < 2147483648 → d % 32 = 0 → PartitionSound p j _ (i64 (_ + d)) :=
    fun d hd hd' hal => (hpart.add hd hd' hal).2 (by rw [hzero]; omega)
  refine hdelta (if j = 0 then offset else 0) ?_ ?_ ?_ <;> split <;> omega

/-- A publisher fills the term but one, rotates, fills the last term and is refused. -/
def fillAndStop : List Action :=
  [.driver 1152921504606846976 true false] ++ calling 0 (.offer 8160) 7 ++ calling 0 (.offer 8160) 9 ++
    (List.replicate 8 (calling 0 (.offer 8160) 7)).flatten ++ calling 0 (.offer2 4000 4160) 6

theorem end_of_stream_safe_refused :
    ∃ s, (endingSystem smallLog (Detecting smallLog)).Reachable s ∧ s.activeTermCount = lastTerm ∧
      s.returned.getLast? = some ⟨maxPositionExceeded, [], none⟩ ∧
      ∀ i, s.publishers i ≠ .panicked := by
  obtain ⟨s, hreach, hs⟩ := System.exists_reachable_guard (NearEnd smallLog) (step smallLog)
    (Detecting smallLog) (nearEnd_ending smallLog 57344 (by decide) (by decide) (by decide))
    fillAndStop (fun s => s.activeTermCount = lastTerm ∧
      s.returned.getLast? = some ⟨maxPositionExceeded, [], none⟩) (by decide +kernel)
  obtain ⟨hcount, hlast⟩ := of_decide_eq_true hs
  exact ⟨s, hreach, hcount, hlast, fun i => ((end_of_stream_safe hreach).1 i).1⟩

/-- Publisher 0 reads the tail at the start of the last term; publisher 1 fills the term; then
publisher 0 trips, with an offset that says nothing of the end. -/
def tripAfterFill : List Action :=
  [.driver 1152921504606846976 true false] ++ calling 1 (.offer 8160) 9 ++ calling 0 (.offer 100) 4 ++
    (List.replicate 8 (calling 1 (.offer 8160) 7)).flatten ++ List.replicate 3 (.step 0)

/-- Publisher 1 trips the term but one and has not rotated yet; publisher 0 reads the tail past the end
of that term and fails to append. -/
def failBeforeRotation : List Action :=
  [.driver 1152921504606846976 true false] ++ calling 1 (.offer 8160) 5 ++ calling 0 (.offer 100) 5

/-- One run panics in the last term; in another a call is refused with the whole last term free. -/
theorem end_of_stream_missed :
    (∃ s, (endingSystem smallLog (Within smallLog)).Reachable s ∧ s.publishers 0 = .panicked) ∧
      ∃ s t, (endingSystem smallLog (Within smallLog)).Reachable s ∧ s.terms 1 ≠ lastTerm ∧
        step smallLog s (.step 0) = some t ∧
        t.returned = s.returned ++ [⟨maxPositionExceeded, [], none⟩] := by
  have hstart := nearEnd_ending smallLog 65536 (by decide) (by decide) (by decide)
  constructor
  · obtain ⟨s, hreach, hs⟩ := System.exists_reachable_guard (NearEnd smallLog) (step smallLog)
      (Within smallLog) hstart tripAfterFill (fun s => s.publishers 0 = .panicked) (by decide +kernel)
    exact ⟨s, hreach, of_decide_eq_true hs⟩
  · obtain ⟨s, hreach, hs⟩ := System.exists_reachable_guard (NearEnd smallLog) (step smallLog)
      (Within smallLog) hstart failBeforeRotation (fun s => s.terms 1 ≠ lastTerm ∧
        (step smallLog s (.step 0)).any fun t =>
          t.returned = s.returned ++ [⟨maxPositionExceeded, [], none⟩]) (by decide +kernel)
    obtain ⟨hterm, hany⟩ := of_decide_eq_true hs
    obtain ⟨t, ht, hret⟩ := (Option.any_eq_true _ _).mp hany
    exact ⟨s, t, hreach, hterm, ht, of_decide_eq_true hret⟩

end AeronGo.Publication
