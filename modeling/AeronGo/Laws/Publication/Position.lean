import AeronGo.Laws.Publication.Concurrent

/-!
# Returned positions

`newPosition` adds the offset of the claim to the begin position of the tail that the call read
before it claimed. So a returned position is the end of what the call wrote exactly when the
partition was still in the same term at the get-and-add (`position_exact_iff`). In the runs where it always
is, every returned position is exact (`returned_position_exact`); a publisher that is overtaken by
three rotations returns a position three terms too early (`late_position`).
-/

namespace AeronGo.Publication

open Machine LogBuffer Util

variable {p : LogParams}

/-- A returned position is the end of the frames the call wrote, by the term id in their headers. -/
def Exact (p : LogParams) (r : Returned) : Prop :=
  0 < r.value → ∃ f, r.wrote.getLast? = some f ∧
    r.value = computePosition f.termId f.stop p.positionBitsToShift p.initialTermId

/-- A publisher about to claim finds its partition in the term whose tail it read. -/
def ClaimsTermRead (s : State) : Pc → Prop
  | .add _ termCount rawTail => termID (s.tails (indexByTermCount termCount)) = termID rawTail
  | _ => True

instance (s : State) : (pc : Pc) → Decidable (ClaimsTermRead s pc)
  | .add _ termCount rawTail =>
    inferInstanceAs (Decidable (termID (s.tails (indexByTermCount termCount)) = termID rawTail))
  | .idle | .entry _ | .readLimit _ | .readCount _ _ | .readTail _ _ _ | .readConnected | .write _ _ _
  | .rotateRead _ _ | .rotateSet _ _ _ | .rotateCount _ | .panicked => .isTrue trivial

/-- The step is no get-and-add in another term than the one read first. -/
def SameTerm (s : State) : Action → Prop
  | .step i => ClaimsTermRead s (s.publishers i)
  | _ => True

instance (s : State) : (a : Action) → Decidable (SameTerm s a)
  | .invoke .. | .driver .. => .isTrue trivial
  | .step i => inferInstanceAs (Decidable (ClaimsTermRead s (s.publishers i)))

/-! ## Position arithmetic -/

/-- `newPosition` is the begin position of the tail read first plus the claim's end. -/
theorem newPosition_eq (a : Append) (lo : 0 ≤ a.resultingOffset) (hi : a.resultingOffset ≤ p.termLength) :
    newPosition p a = i32 (termID a.rawTail - p.initialTermId) * p.termLength + a.resultingOffset := by
  have hge := p.termLength_ge
  have hle := p.termLength_le
  obtain ⟨hlo, hhi⟩ := i32_range (termID a.rawTail - p.initialTermId)
  have hoff := tailOffset_nonneg a.rawTail
  have hoff' : tailOffset a.rawTail < 4294967296 := by rw [tailOffset_eq]; omega
  unfold newPosition tailPosition
  rw [computeTermBeginPosition_eq]
  generalize i32 (termID a.rawTail - p.initialTermId) = n at *
  have hb : -2305843009213693952 ≤ n * p.termLength ∧ n * p.termLength ≤ 2305843009213693952 := by
    constructor <;> nlinarith
  generalize n * p.termLength = b at *
  rw [i64_eq (x := b + tailOffset a.rawTail) (by omega), i64_eq (x := b + _ - _) (by omega),
    i64_eq (by omega)]
  omega

theorem computePosition_of_le (termId : Int) {offset : Int} (lo : 0 ≤ offset) (hi : offset ≤ p.termLength) :
    computePosition termId offset p.positionBitsToShift p.initialTermId =
      i32 (termId - p.initialTermId) * p.termLength + offset := by
  have hge := p.termLength_ge
  have hle := p.termLength_le
  obtain ⟨hlo, hhi⟩ := i32_range (termId - p.initialTermId)
  rw [computePosition_eq]
  generalize i32 (termId - p.initialTermId) = n at *
  have hb : -2305843009213693952 ≤ n * p.termLength ∧ n * p.termLength ≤ 2305843009213693952 := by
    constructor <;> nlinarith
  generalize n * p.termLength = b at *
  rw [i64_eq (x := b) (by omega), i64_eq (by omega)]

/-- Two term ids have the same begin position exactly when they are the same. -/
theorem termBegin_inj {m n : Int} (hm : I32 m) (hn : I32 n) :
    i32 (m - p.initialTermId) * p.termLength = i32 (n - p.initialTermId) * p.termLength ↔ m = n := by
  have hge := p.termLength_ge
  constructor
  · intro h
    have hword := Int.eq_of_mul_eq_mul_right (show p.termLength ≠ 0 by omega) h
    have hmod := (i32_eq_iff _ _).mp hword
    obtain ⟨hm1, hm2⟩ := hm
    obtain ⟨hn1, hn2⟩ := hn
    omega
  · intro h
    rw [h]

/-! ## Runs -/

/-- What a call has written and has left to write are the frames of its claim. -/
structure AppendSound (p : LogParams) (Q : Append → Prop) (frames : List FrameHeader) (a : Append) : Prop where
  agrees : Q a
  fits : a.resultingOffset ≤ p.termLength
  chain : Chain FrameHeader.offset FrameHeader.stop (tailOffset a.claimed) frames a.resultingOffset
  termId : ∀ f ∈ frames, f.termId = termID a.claimed
  nonempty : frames ≠ []

/-- A publisher that has claimed successfully writes the frames of its claim. -/
def WritesClaim (p : LogParams) (Q : Append → Prop) : Pc → Prop
  | .write left done a => 0 < a.resultingOffset → AppendSound p Q (done ++ left) a
  | _ => True

/-- A returned position comes from a claim whose frames are all written. -/
def ReturnsClaim (p : LogParams) (Q : Append → Prop) (r : Returned) : Prop :=
  0 < r.value → ∃ a, r.append = some a ∧ r.value = newPosition p a ∧ AppendSound p Q r.wrote a

structure PositionsSound (p : LogParams) (Q : Append → Prop) (s : State) : Prop where
  publishers : ∀ i, PcSound p s.claims (s.publishers i)
  writes : ∀ i, WritesClaim p Q (s.publishers i)
  returns : ∀ r ∈ s.returned, ReturnsClaim p Q r

variable {Q : Append → Prop}

/-- A get-and-add that fits leaves its publisher with the frames of its claim. -/
theorem writesClaim_add {call : Call} (h : call.Accepted p) {termCount raw claimed : Int}
    (hQ : Q ⟨termCount, raw, claimed, appendResult p call claimed⟩) :
    WritesClaim p Q (.write (appendFrames p call claimed) []
      ⟨termCount, raw, claimed, appendResult p call claimed⟩) := by
  have hlo := tailOffset_nonneg claimed
  have hle := p.termLength_le
  have hpos := (Call.required_bounds h).1
  intro hres
  unfold appendResult endOfLogResult at hres
  simp only at hres
  split at hres
  · exact absurd hres (by split <;> decide)
  next hfits =>
    have hword : i32 (tailOffset claimed) = tailOffset claimed := i32_eq (by omega)
    have hresult : appendResult p call claimed = tailOffset claimed + call.required p := if_neg hfits
    have hframes : appendFrames p call claimed = call.frames p (tailOffset claimed) (termID claimed) := by
      rw [appendFrames, if_neg hfits, hword]
    have hchain := Call.frames_chain h (termID claimed) hlo (by omega)
    rw [List.nil_append, hframes]
    have hfit : appendResult p call claimed ≤ p.termLength := by omega
    refine ⟨hQ, hfit, by rw [hresult]; exact hchain, ?_, ?_⟩
    · intro f hf
      exact (Call.of_mem_frames hf).1
    · intro hnil
      rw [hnil] at hchain
      have hend : tailOffset claimed = tailOffset claimed + call.required p := hchain
      omega

theorem writesClaim_of_not_writing {pc : Pc} (h : pc.writing = false) :
    WritesClaim p Q pc := by
  cases pc with
  | write left done a => cases h
  | _ => trivial

/-- Every step keeps the positions sound, provided a get-and-add agrees with what was read. -/
theorem PositionsSound.step {s t : State} {a : Action} (h : PositionsSound p Q s)
    (ht : Publication.step p s a = some t)
    (hQ : ∀ i call termCount raw, a = .step i → s.publishers i = .add call termCount raw →
      Q ⟨termCount, raw, s.tails (indexByTermCount termCount),
        appendResult p call (s.tails (indexByTermCount termCount))⟩) : PositionsSound p Q t := by
  cases step_cases h.publishers ht with
  | quiet i pc hq hpc =>
    refine ⟨?_, ?_, ?_⟩
    · rw [hq.publishers, hq.claims]
      exact forall_moved h.publishers hpc
    · rw [hq.publishers]
      refine forall_moved h.writes ?_
      rcases hq.writing with hw | hsame
      · exact writesClaim_of_not_writing hw
      · exact hsame ▸ h.writes i
    · rcases hq.returned with hr | ⟨value, hv, hr⟩
      · rw [hr]
        exact h.returns
      · intro r hmem
        rw [hr] at hmem
        rcases List.mem_append.mp hmem with hmem | hmem
        · exact h.returns r hmem
        · rw [List.mem_singleton.mp hmem]
          exact fun hpos => absurd hpos (Int.not_lt.mpr hv)
  | finish i done act hi hpos he =>
    subst he
    refine ⟨forall_moved h.publishers trivial, forall_moved h.writes trivial, ?_⟩
    intro r hmem
    rcases List.mem_append.mp hmem with hmem | hmem
    · exact h.returns r hmem
    · rw [List.mem_singleton.mp hmem]
      intro _
      have hwrites := h.writes i
      rw [hi] at hwrites
      have happend := hwrites hpos
      rw [List.append_nil] at happend
      exact ⟨act, rfl, rfl, happend⟩
  | store i f left done act hi he =>
    subst he
    have hwrites := h.writes i
    have hpcs := h.publishers i
    rw [hi] at hwrites hpcs
    refine ⟨forall_moved h.publishers fun g hg => hpcs g (List.mem_cons_of_mem f hg),
      forall_moved h.writes ?_, h.returns⟩
    intro hpos
    rw [List.append_assoc]
    exact hwrites hpos
  | claim i call termCount raw hact hi he =>
    subst he
    have hpcs := h.publishers i
    rw [hi] at hpcs
    refine ⟨?_, forall_moved h.writes (writesClaim_add hpcs.1 (hQ i call termCount raw hact hi)), h.returns⟩
    refine forall_moved (fun j => (h.publishers j).mono fun c hc => mem_addStep_claims.mpr (Or.inl hc)) ?_
    intro f hf
    exact ⟨_, mem_addStep_claims.mpr (Or.inr rfl), hf⟩
  | enter i termCount termId hi he =>
    subst he
    exact ⟨forall_moved h.publishers trivial, forall_moved h.writes trivial, h.returns⟩

theorem positionsSound_initial (Q : Append → Prop) : PositionsSound p Q (State.initial p) :=
  ⟨fun _ => trivial, fun _ => trivial, nofun⟩

/-- A returned position in terms of its append. -/
theorem exact_iff_of_append {r : Returned} {a : Append} (hpos : 0 < r.value)
    (hv : r.value = newPosition p a) (ha : AppendSound p Q r.wrote a) :
    Exact p r ↔ termID a.rawTail = termID a.claimed := by
  obtain ⟨f, hf⟩ : ∃ f, r.wrote.getLast? = some f := ⟨_, List.getLast?_eq_some_getLast ha.nonempty⟩
  have hmem := List.mem_of_getLast? hf
  have hid := ha.termId f hmem
  have hstop := ha.chain.hi_getLast hf
  have hlo := Int.le_trans (tailOffset_nonneg a.claimed) ha.chain.le
  have hvalue := hv.trans (newPosition_eq a hlo ha.fits)
  have hframe := computePosition_of_le (p := p) (termID a.claimed) hlo ha.fits
  have hinj := termBegin_inj (p := p) (termID_range a.rawTail) (termID_range a.claimed)
  constructor
  · intro hexact
    obtain ⟨g, hg, heq⟩ := hexact hpos
    rw [hf] at hg
    cases hg
    rw [hid, hstop, hframe, hvalue] at heq
    exact hinj.mp (by omega)
  · intro hsame _
    refine ⟨f, hf, ?_⟩
    rw [hid, hstop, hframe, hvalue, hinj.mpr hsame]

/-- **The condition is exact.** In every run, a call that returns a position returns the end of what
it wrote exactly when it claimed in the term whose tail it had read. -/
theorem position_exact_iff {s : State} (h : (publisherSystem p).Reachable s) {r : Returned} (hr : r ∈ s.returned)
    (hpos : 0 < r.value) :
    ∃ a, r.append = some a ∧ (Exact p r ↔ termID a.rawTail = termID a.claimed) := by
  have hsound : PositionsSound p (fun _ => True) s := by
    refine h.invariant (I := PositionsSound p fun _ => True) ?_ ?_
    · intro s hs
      exact hs ▸ positionsSound_initial _
    · intro s a t hs hstep
      exact hs.step hstep fun _ _ _ _ _ _ => trivial
  obtain ⟨a, ha, hv, happend⟩ := hsound.returns r hr hpos
  exact ⟨a, ha, exact_iff_of_append hpos hv happend⟩

theorem position_exact_iff_three : ∃ s, (publisherSystem smallLog).Reachable s ∧ ∃ r ∈ s.returned, 0 < r.value ∧
    ∃ a, r.append = some a ∧ (Exact smallLog r ↔ termID a.rawTail = termID a.claimed) := by
  obtain ⟨s, hreach, hend⟩ := System.exists_reachable (· = State.initial smallLog) (step smallLog) rfl threeTrip
    (fun s => ∃ r ∈ s.returned, 0 < r.value) (by decide +kernel)
  obtain ⟨r, hr, hpos⟩ := of_decide_eq_true hend
  exact ⟨s, hreach, r, hr, hpos, position_exact_iff hreach hr hpos⟩

/-- In every run whose get-and-adds all fall in the term whose tail the call had read, every returned
position is the end of the frames that the call wrote. -/
theorem returned_position_exact {s : State}
    (h : ((publisherSystem p).guard SameTerm).Reachable s) : ∀ r ∈ s.returned, Exact p r := by
  have hsound : PositionsSound p (fun a => termID a.rawTail = termID a.claimed) s := by
    refine h.invariant (I := PositionsSound p fun a => termID a.rawTail = termID a.claimed) ?_ ?_
    · intro s hs
      exact hs ▸ positionsSound_initial _
    · intro s a t hs hstep
      obtain ⟨hsame, hstep⟩ := hstep
      refine hs.step hstep ?_
      intro i call termCount raw hact hi
      subst hact
      have hclaims : ClaimsTermRead s (s.publishers i) := hsame
      rw [hi] at hclaims
      exact hclaims.symm
  intro r hr hpos
  obtain ⟨a, _, hv, happend⟩ := hsound.returns r hr hpos
  exact (exact_iff_of_append hpos hv happend).mpr happend.agrees hpos

theorem returned_position_exact_three :
    ∃ s, ((publisherSystem smallLog).guard SameTerm).Reachable s ∧
      (s.returned.length = 10 ∧ s.activeTermCount = 1) ∧ ∀ r ∈ s.returned, Exact smallLog r := by
  obtain ⟨s, hreach, hend⟩ := System.exists_reachable_guard (· = State.initial smallLog)
    (step smallLog) SameTerm rfl threeTrip (fun s => s.returned.length = 10 ∧ s.activeTermCount = 1)
    (by decide +kernel)
  exact ⟨s, hreach, of_decide_eq_true hend, returned_position_exact hreach⟩

/-- Eight offers that fill a term and one that trips and rotates. -/
def wholeTerm : List Action :=
  (List.replicate 8 (calling 1 (.offer 8160) 7)).flatten ++ calling 1 (.offer 0) 9

/-- Publisher 0 is stopped between reading the tail of the first term and its get-and-add, while
publisher 1 takes the log through three terms. -/
def overtaken : List Action :=
  [.driver 1000000 true false] ++ calling 0 (.tryClaim 32) 4 ++ wholeTerm ++ wholeTerm ++ wholeTerm ++
    List.replicate 3 (.step 0)

/-- The overtaken publisher returns position 64, and its frame is in the fourth term. -/
theorem late_position : ∃ s, (publisherSystem smallLog).Reachable s ∧ ∃ r ∈ s.returned, ¬ Exact smallLog r := by
  obtain ⟨s, hreach, hend⟩ := System.exists_reachable (· = State.initial smallLog) (step smallLog) rfl
    overtaken (fun s => ∃ r ∈ s.returned, r.value = 64 ∧
      r.wrote = [⟨0, 64, unfragmented, typeData, -2147483646⟩]) (by decide +kernel)
  obtain ⟨r, hr, hvalue, hwrote⟩ := of_decide_eq_true hend
  refine ⟨s, hreach, r, hr, ?_⟩
  intro hexact
  obtain ⟨f, hf, hpos⟩ := hexact (by rw [hvalue]; decide)
  rw [hwrote] at hf
  cases hf
  rw [hvalue] at hpos
  revert hpos
  decide

end AeronGo.Publication
