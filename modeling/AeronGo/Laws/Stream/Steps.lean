import AeronGo.Laws.Stream.Invariant

/-!
# The steps of a stream

Every step of a stream keeps its invariant: the calls append (`Inv.offered`, `Inv.claimed`), the stores
through a claim replace its slot (`Inv.stored`), polls move slots from those to come to those consumed
(`Inv.polled`), and the driver touches neither. So it holds of every reachable state (`reachable_inv`), and an
admissible step fails at most where a frame may be longer than half a term (`step_cases`).
-/

namespace AeronGo.Stream

open Machine Util Atomic LogBuffer

/-- A call that did nothing. -/
theorem State.returned_rejected {σ α : Type} {s : State σ} {r : Published α} (hr : r.Rejected s.publication)
    (outcome : Outcome) : s.returned r outcome = s := by
  have hvalue := hr.value
  rw [State.returned, hr.publication, if_neg (by omega)]

/-- The claims that a call adds. -/
def newClaims (r : Published (Int × Int)) : List OpenClaim :=
  match r.written with
  | some (index, offset, frameLength) => [⟨r.value, ⟨index, offset, frameLength⟩⟩]
  | none => []

/-- The invariant, for some view of the log. -/
def Invariant {σ : Type} (p : StreamParams) (Q : List Slot → List Slot → σ → Prop) (s : State σ) : Prop :=
  ∃ n off entries consumed live, Inv p Q s n off entries consumed live

namespace Inv

variable {σ : Type} {p : StreamParams} {Q : List Slot → List Slot → σ → Prop} {s : State σ} {n off : Int}
  {entries : List Entry} {consumed live : List Slot} (h : Inv p Q s n off entries consumed live)

include h

/-! ## Calls -/

/-- The room that a call assumes of the limit. -/
theorem room : s.publication.limit ≤ producerPosition p n off + p.termLength / 2 := by
  have hlimit := h.limit
  have hle := h.laid.le
  omega

/-- The next partition is zero, if a call leaves the term full. -/
theorem next_zero {t : State σ} (hclean : CleanAhead p s t) (hfull : p.termLength ≤ tailOffset (t.log.tails (n % 3))) :
    ∀ x, (n + 1) * p.termLength ≤ x → x < (n + 2) * p.termLength → s.log.bytes p x = 0 := by
  intro x lo hi
  have hthis : (n + 1 + 1) * p.termLength = (n + 2) * p.termLength := by ring
  have hnext : (n + 1 + 1) * p.termLength = (n + 1) * p.termLength + p.termLength := by ring
  unfold CleanAhead at hclean
  rw [h.logAt.count, h.logAt.index_eq] at hclean
  have hbyte := Log.bytes_at p s.log (n + 1) (show 0 ≤ x - (n + 1) * p.termLength by omega) (by omega)
  rw [add_sub_cancel] at hbyte
  rw [hbyte]
  exact hclean hfull _ (by omega) (by omega)

section Call

variable {consumer : Consumer σ} {st : σ} (hsound : consumer.Sound p st Q) {α : Type} {required : Int} {x : Int → α}
  {r : Published α} (hi : required ≤ maxRequired p)

include hsound hi

/-- A call that appended a record. -/
theorem accepted (outcome : Outcome) {claims : List OpenClaim} (lo : 0 < required)
    (hr : r.Accepted p s.publication n off required (Entry.slotsOf p.maxPayloadLength outcome) x)
    (hsane : (Entry.record ⟨r.value, outcome⟩).Sane p.termLength)
    (hclean : CleanAhead p s (s.returned r outcome))
    (hclaims : ∀ c ∈ claims, ClaimAt p (entries ++ [.record ⟨r.value, outcome⟩]) c)
    (hdistinct : (claims.map OpenClaim.position).Nodup) :
    Inv p Q { s.returned r outcome with claims := claims } n (off + required)
      (entries ++ [.record ⟨r.value, outcome⟩]) consumed (live ++ Entry.slotsOf p.maxPayloadLength outcome) := by
  have hge := p.termLength_ge
  have hoff := h.logAt.off_nonneg
  have hfits := hr.fits
  have hlimit := hr.limit
  have hlimit' := h.limit
  have hbegin := h.logAt.begin_bounds
  have hslots : slotsOf p.maxPayloadLength [.record ⟨r.value, outcome⟩] = Entry.slotsOf p.maxPayloadLength outcome :=
    List.append_nil _
  have hold : producerPosition p n off = n * p.termLength + off := by
    rw [producerPosition, Int.min_eq_left (by omega)]
  have hnew : producerPosition p n (off + required) = n * p.termLength + (off + required) := by
    rw [producerPosition, Int.min_eq_left hfits]
  have hone := Int.add_mul n 1 p.termLength
  have htwo := Int.add_mul n 2 p.termLength
  have hthree := Int.add_mul n 3 p.termLength
  have htail := hr.logAt.tailOffset_tail
  have hsame : r.publication.limit = s.publication.limit := by
    rw [hr.publication]
  have happend := h.append hsound { s.returned r outcome with claims := claims } [.record ⟨r.value, outcome⟩] hr.logAt
    rfl rfl hsame ?_ ?_ ?_ ?_ ?_ ?_ ?_ ?_ hclaims hdistinct
  · rwa [hslots] at happend
  · show (if 0 < r.value then _ else _) = _
    rw [if_pos (by rw [hr.value]; omega)]
    rfl
  · intro e he
    rw [List.mem_singleton.mp he]
    exact hsane
  · refine ⟨?_, trivial⟩
    intro r' hr'
    obtain rfl := Entry.record.inj hr'
    have hstop := hr.wrote.laid.stop_eq
    show r.value = _ + totalSpace (Entry.slotsOf p.maxPayloadLength outcome)
    rw [hold, hr.value, ← hstop]
    omega
  · rw [hold, hnew, hslots]
    exact hr.wrote
  · rw [hnew]
    omega
  · unfold zeroEnd
    split <;> omega
  · unfold zeroEnd
    split <;> omega
  · intro x lo' hi'
    have hnextZero := h.next_zero hclean
    rw [hnew] at lo'
    unfold zeroEnd at hi'
    by_cases hfull : off + required < p.termLength
    · rw [if_pos hfull] at hi'
      refine h.zero x (by omega) ?_
      rw [zeroEnd, if_pos (by omega)]
      exact hi'
    · rw [if_neg hfull] at hi'
      exact hnextZero (by show _ ≤ tailOffset (r.publication.log.tails (n % 3)); omega) x (by omega) hi'

/-- A call that came to the end of the term. -/
theorem ended (hr : r.Ended p s.publication n off required) (outcome : Outcome)
    (hclean : CleanAhead p s (s.returned r outcome)) : Invariant p Q (s.returned r outcome) := by
  have hge := p.termLength_ge
  have hoff := h.logAt.off_nonneg
  have hvalue := hr.value
  have hends := hr.ends
  have hlimit := hr.limit
  have hlimit' := h.limit
  have hone := Int.add_mul n 1 p.termLength
  have htwo := Int.add_mul n 2 p.termLength
  have hthree := Int.add_mul n 3 p.termLength
  have hnext : (n + 1 + 1) * p.termLength = n * p.termLength + 2 * p.termLength := by ring
  have hsame : r.publication.limit = s.publication.limit := by
    rw [hr.publication]
  have hnextZero := h.next_zero hclean (by show _ ≤ tailOffset (r.publication.log.tails (n % 3)); rw [hr.tail]; omega)
  -- the next term, or the last one with its tail behind the end: both begin where this term ends
  obtain ⟨n', off', hlogAt, hposition, hzeroEnd⟩ : ∃ n' off', LogAt p r.publication.log n' off' ∧
      producerPosition p n' off' = (n + 1) * p.termLength ∧ zeroEnd p n' off' = (n + 2) * p.termLength := by
    rcases hr.logAt with ⟨_, hat⟩ | ⟨_, hat⟩
    · refine ⟨n + 1, 0, hat, ?_, ?_⟩
      · rw [producerPosition, Int.min_eq_left (by omega), Int.add_zero]
      · rw [zeroEnd, if_pos (by omega), hnext, htwo]
    · refine ⟨n, off + required, hat, ?_, ?_⟩
      · rw [producerPosition, Int.min_eq_right (by omega), hone, Int.one_mul]
      · rw [zeroEnd, if_neg (by omega)]
  -- the padding is an entry unless the term was full before
  obtain ⟨es, hslots, hnone, hsane, hpositioned⟩ : ∃ es : List Entry,
      slotsOf p.maxPayloadLength es = endSlots p.termLength off ∧ es.filterMap Entry.record? = [] ∧
      (∀ e ∈ es, e.Sane p.termLength) ∧ Positioned p.maxPayloadLength (producerPosition p n off) es := by
    unfold endSlots
    split
    next hlt =>
      refine ⟨[.endOfTerm (p.termLength - off)], rfl, rfl, ?_, ?_, trivial⟩
      · intro e he
        rw [List.mem_singleton.mp he]
        have haligned := h.logAt.off_aligned
        have hlength := p.termLength_aligned
        show 32 ≤ p.termLength - off
        omega
      · intro r hr
        cases hr
    next => exact ⟨[], rfl, rfl, fun e he => (List.not_mem_nil he).elim, trivial⟩
  refine ⟨n', off', entries ++ es, consumed, live ++ slotsOf p.maxPayloadLength es,
    h.append hsound _ es hlogAt rfl rfl hsame ?_ hsane hpositioned ?_ ?_ ?_ ?_ ?_ ?_ h.distinct⟩
  · show (if 0 < r.value then _ else _) = _
    rw [if_neg (by omega), hnone, List.append_nil]
  · rw [hslots, hposition]
    exact hr.wrote
  · rw [hposition]
    omega
  · rw [hzeroEnd]
    omega
  · rw [hzeroEnd]
    omega
  · rw [hposition, hzeroEnd]
    exact hnextZero
  · exact fun c hc => ClaimAt.append (h.claims c hc) es

/-- **An offer keeps the invariant.** -/
theorem offered {bytes : List UInt8} (lo : 0 < required)
    (hr : r.Rejected s.publication ∨
      r.Accepted p s.publication n off required (messageSlots p.maxPayloadLength bytes) x ∨
      r.Ended p s.publication n off required)
    (hlength : (bytes.length : Int) ≤ required) (hclean : CleanAhead p s (s.returned r (.message bytes))) :
    Invariant p Q (s.returned r (.message bytes)) := by
  rcases hr with hr | hr | hr
  · rw [State.returned_rejected hr]
    exact ⟨n, off, entries, consumed, live, h⟩
  · -- what fits the term is no longer than it
    have hsane : (bytes.length : Int) ≤ p.termLength := by
      have hoff := h.logAt.off_nonneg
      have hfits := hr.fits
      omega
    exact ⟨_, _, _, _, _, h.accepted hsound hi (.message bytes) lo hr hsane hclean
      (fun c hc => ClaimAt.append (h.claims c hc) _) h.distinct⟩
  · exact h.ended hsound hi hr _ hclean

omit hsound hi in
/-- Open claims lie below the producer's position. -/
theorem claim_position {c : OpenClaim} (hc : c ∈ s.claims) : c.position ≤ producerPosition p n off := by
  obtain ⟨pre, post, hentries, _⟩ := h.claims c hc
  have hmem : Entry.record ⟨c.position, .pending (c.claim.frameLength - 32)⟩ ∈ entries := by
    rw [hentries]
    exact List.mem_append_right pre List.mem_cons_self
  have hbounds := h.positioned.bounds p.maxPayloadLength_pos h.sane _ hmem
  rw [h.producerPosition_eq]
  simpa using hbounds.2

end Call

/-- **A claim keeps the invariant.** -/
theorem claimed {consumer : Consumer σ} {st : σ} (hsound : consumer.Sound p st Q) {r : Published (Int × Int)}
    {length required : Int} (hi : required ≤ maxRequired p) (lo : 0 < required) (hlength : 0 ≤ length)
    (hmax : length ≤ p.maxPayloadLength)
    (hr : r.Rejected s.publication ∨
      r.Accepted p s.publication n off required [.pending (length + 32)] (fun offset => (offset, length + 32)) ∨
      r.Ended p s.publication n off required)
    (hclean : CleanAhead p s (s.returned r (.pending length))) :
    Invariant p Q { s.returned r (.pending length) with claims := s.claims ++ newClaims r } := by
  have hnone : r.written = none →
      { s.returned r (.pending length) with claims := s.claims ++ newClaims r } = s.returned r (.pending length) := by
    intro hwritten
    rw [newClaims, hwritten, List.append_nil]
    rfl
  rcases hr with hr | hr | hr
  · rw [hnone hr.written, State.returned_rejected hr]
    exact ⟨n, off, entries, consumed, live, h⟩
  · have hoff := h.logAt.off_nonneg
    have hfits := hr.fits
    have hend : totalSpace (slotsOf p.maxPayloadLength entries) = n * p.termLength + off := by
      rw [← h.producerPosition_eq, producerPosition, Int.min_eq_left (by omega)]
    obtain ⟨hterm, hoffset⟩ := position_split p n hoff (show off < p.termLength by omega)
    refine ⟨_, _, _, _, _, h.accepted hsound hi (.pending length) lo hr hlength hclean ?_ ?_⟩
    · intro c hc
      rw [newClaims, hr.written] at hc
      rcases List.mem_append.mp hc with hc | hc
      · exact ClaimAt.append (h.claims c hc) _
      · rw [List.mem_singleton.mp hc]
        refine ⟨entries, [], ?_, ?_, ?_, ?_⟩
        · simp
        · rw [hend, hterm]
        · rw [hend, hoffset]
        · simpa using hmax
    · rw [newClaims, hr.written, List.map_append]
      refine List.nodup_append.mpr ⟨h.distinct, List.pairwise_singleton _ _, ?_⟩
      intro a ha b hb
      obtain ⟨c, hc, rfl⟩ := List.mem_map.mp ha
      have hbelow := h.claim_position hc
      rw [h.producerPosition_eq, hend] at hbelow
      rw [List.map_singleton, List.mem_singleton] at hb
      have hvalue := hr.value
      rw [hb]
      simp only
      omega
  · rw [hnone hr.written]
    exact h.ended hsound hi hr _ hclean

/-! ## Stores through a claim -/

omit h in
/-- Another claim stays where it is when an entry is replaced by one of the same space. -/
theorem ClaimAt.replace {pre post : List Entry} {position : Int} {outcome outcome' : Outcome} {c : OpenClaim}
    (hc : ClaimAt p (pre ++ .record ⟨position, outcome⟩ :: post) c) (hne : c.position ≠ position)
    (hspace : totalSpace (Entry.slotsOf p.maxPayloadLength outcome') =
      totalSpace (Entry.slotsOf p.maxPayloadLength outcome)) :
    ClaimAt p (pre ++ .record ⟨position, outcome'⟩ :: post) c := by
  obtain ⟨pre', post', hsplit, hplace⟩ := hc
  rcases List.append_eq_append_iff.mp hsplit with ⟨mid, rfl, hrest⟩ | ⟨mid, rfl, hrest⟩
  · cases mid with
    | nil =>
      obtain ⟨hrecord, _⟩ := List.cons.inj hrest
      exact absurd (congrArg Record.position (Entry.record.inj hrecord)).symm hne
    | cons e mid =>
      obtain ⟨rfl, rfl⟩ := List.cons.inj hrest
      refine ⟨pre ++ .record ⟨position, outcome'⟩ :: mid, post', by rw [List.append_assoc]; rfl, ?_⟩
      have hsame : totalSpace (slotsOf p.maxPayloadLength (pre ++ .record ⟨position, outcome'⟩ :: mid)) =
          totalSpace (slotsOf p.maxPayloadLength (pre ++ .record ⟨position, outcome⟩ :: mid)) := by
        simp only [slotsOf_append, slotsOf_cons, totalSpace_append, Entry.slots, hspace]
      rw [hsame]
      exact hplace
  · cases mid with
    | nil =>
      obtain ⟨hrecord, _⟩ := List.cons.inj hrest
      exact absurd (congrArg Record.position (Entry.record.inj hrecord)) hne
    | cons e mid =>
      obtain ⟨rfl, rfl⟩ := List.cons.inj hrest
      exact ⟨pre', mid ++ .record ⟨position, outcome'⟩ :: post, by rw [List.append_assoc]; rfl, hplace⟩

/-- An open claim lies among the slots that are not consumed. -/
theorem claim_live {pre post : List Entry} {position length : Int}
    (hentries : entries = pre ++ .record ⟨position, .pending length⟩ :: post) :
    ∃ before, live = before ++ .pending (length + 32) :: slotsOf p.maxPayloadLength post ∧
      slotsOf p.maxPayloadLength pre = consumed ++ before := by
  have hsplit := h.split
  rw [hentries, slotsOf_append, slotsOf_cons] at hsplit
  rcases List.append_eq_append_iff.mp hsplit with ⟨mid, hconsumed, hrest⟩ | ⟨mid, hpre, hlive⟩
  · cases mid with
    | nil =>
      refine ⟨[], hrest.symm, ?_⟩
      rw [hconsumed, List.append_nil, List.append_nil]
    | cons t mid =>
      obtain ⟨rfl, _⟩ := List.cons.inj hrest
      have hmem : Slot.pending (length + 32) ∈ consumed := by
        rw [hconsumed]
        exact List.mem_append_right _ List.mem_cons_self
      cases h.committed _ hmem
  · exact ⟨mid, hlive, hpre⟩

/-- The terms around the slots that are not consumed. -/
theorem term_bounds {start : Int} (lo : totalSpace consumed ≤ start) (hi : start < producerPosition p n off) {x : Int}
    (hlo : totalSpace consumed ≤ x) (hhi : x < zeroEnd p n off) :
    (start / p.termLength - 2) * p.termLength ≤ x ∧ x < (start / p.termLength + 3) * p.termLength := by
  have hpos := p.termLength_pos
  have hahead := h.ahead
  obtain ⟨_, hbelow, hafter, _⟩ := h.window_bounds
  have hlast : start / p.termLength < n + 1 := (Int.ediv_lt_iff_lt_mul hpos).mpr (by omega)
  -- the zeroed part ends with a term, so two and a half terms are no more than three
  obtain ⟨k, hk⟩ : ∃ k, zeroEnd p n off = k * p.termLength := by
    unfold zeroEnd
    split
    · exact ⟨_, rfl⟩
    · exact ⟨_, rfl⟩
  have hthree := Int.sub_mul k 3 p.termLength
  have hfirst : k - 3 ≤ start / p.termLength := (Int.le_ediv_iff_mul_le hpos).mpr (by omega)
  constructor
  · have : (start / p.termLength - 2) * p.termLength ≤ (n - 2) * p.termLength :=
      Int.mul_le_mul_of_nonneg_right (by omega) (Int.le_of_lt hpos)
    omega
  · have : k * p.termLength ≤ (start / p.termLength + 3) * p.termLength :=
      Int.mul_le_mul_of_nonneg_right (by omega) (Int.le_of_lt hpos)
    omega

section Claimed

variable {c : OpenClaim} {pre post : List Entry}
  (hentries : entries = pre ++ .record ⟨c.position, .pending (c.claim.frameLength - 32)⟩ :: post)
  (hindex : c.claim.termIndex = totalSpace (slotsOf p.maxPayloadLength pre) / p.termLength % 3)
  (hoffset : c.claim.offset = totalSpace (slotsOf p.maxPayloadLength pre) % p.termLength)

include hentries hindex hoffset

/-- An open claim is a pending slot of the stream. -/
theorem claim_at :
    ∃ before, live = before ++ .pending c.claim.frameLength :: slotsOf p.maxPayloadLength post ∧
      slotsOf p.maxPayloadLength pre = consumed ++ before ∧
      c.claim.Placed p (totalSpace (slotsOf p.maxPayloadLength pre)) (Slot.pending c.claim.frameLength).space ∧
      (Slot.pending c.claim.frameLength).At p.sessionID (c.claim.buffer s.log).bytes 0 := by
  obtain ⟨before, hlive, hpre⟩ := h.claim_live hentries
  rw [Int.sub_add_cancel] at hlive
  have hstart : totalSpace (slotsOf p.maxPayloadLength pre) = totalSpace consumed + totalSpace before := by
    rw [hpre, totalSpace_append]
  have hfits := h.fits
  have hlaid := h.laid
  rw [hlive] at hfits hlaid
  have hplaced : c.claim.Placed p (totalSpace (slotsOf p.maxPayloadLength pre))
      (Slot.pending c.claim.frameLength).space := by
    refine ⟨hindex, hoffset, ?_⟩
    rw [hstart]
    exact hfits.split.2.1
  have hat := hlaid.of_append.2.1
  rw [← hstart] at hat
  refine ⟨before, hlive, hpre, hplaced, ?_⟩
  have hshift := hat.shift (c.claim.buffer s.log).bytes (-totalSpace (slotsOf p.maxPayloadLength pre)) ?_
  · rwa [Int.add_right_neg] at hshift
  · intro i lo hi
    rw [hplaced.buffer_bytes s.log (by omega) (by omega), Int.neg_add_cancel_right]

/-- A store through a claim that makes its slot another one of the same space. -/
theorem stored {consumer : Consumer σ} {st : σ} (hsound : consumer.Sound p st Q) (t : State σ) (outcome : Outcome)
    {slot : Slot} {b : Buffer} (hslots : Entry.slotsOf p.maxPayloadLength outcome = [slot])
    (hspace : slot.frameLength = c.claim.frameLength)
    (hsane : (Entry.record ⟨c.position, outcome⟩).Sane p.termLength)
    (hat : slot.At p.sessionID b.bytes 0) (hid : getInt32 b.bytes 20 = getInt32 (c.claim.buffer s.log).bytes 20)
    (hagree : AgreeOutside 0 c.claim.frameLength (c.claim.buffer s.log).bytes b.bytes)
    (hlog : t.log = c.claim.setBuffer s.log b) (himage : t.image = s.image) (hconsumer : t.consumer = s.consumer)
    (hlimit : t.publication.limit = s.publication.limit)
    (hrecords : t.records = (pre ++ .record ⟨c.position, outcome⟩ :: post).filterMap Entry.record?)
    (hclaims : ∀ c' ∈ t.claims, ClaimAt p (pre ++ .record ⟨c.position, outcome⟩ :: post) c')
    (hdistinct : (t.claims.map OpenClaim.position).Nodup) :
    ∃ live', Inv p Q t n off (pre ++ .record ⟨c.position, outcome⟩ :: post) consumed live' := by
  obtain ⟨before, hlive, hpre, hplaced, hpending⟩ := h.claim_at hentries hindex hoffset
  have hsize : slot.space = (Slot.pending c.claim.frameLength).space := by
    unfold Slot.space
    rw [hspace]
    rfl
  obtain ⟨start, hstart⟩ : ∃ start, start = totalSpace (slotsOf p.maxPayloadLength pre) := ⟨_, rfl⟩
  have hstart' : start = totalSpace consumed + totalSpace before := by
    rw [hstart, hpre, totalSpace_append]
  rw [← hstart] at hplaced
  have hframe := Slot.space_bounds (s := .pending c.claim.frameLength) hpending.1
  have hframe' : c.claim.frameLength ≤ (Slot.pending c.claim.frameLength).space := hframe.1
  have hlaid := h.laid
  have hstamped := h.stamped
  have hfits := h.fits
  rw [hlive] at hlaid hstamped hfits
  obtain ⟨hbefore, hthis, hafter⟩ := hlaid.of_append
  obtain ⟨hstampedBefore, hstampedThis, hstampedAfter⟩ := hstamped.of_append hbefore
  obtain ⟨hfitsBefore, hfitsThis, hfitsAfter⟩ := hfits.split
  rw [← hstart'] at hbefore hthis hafter hstampedThis hstampedAfter hfitsThis hfitsAfter
  have hbelow := hbefore.le
  have habove := hafter.le
  have hsame : ∀ x, totalSpace consumed ≤ x → x < zeroEnd p n off →
      x < start ∨ start + (Slot.pending c.claim.frameLength).space ≤ x → t.log.bytes p x = s.log.bytes p x := by
    intro x lo hi hx
    obtain ⟨hlo, hhi⟩ := h.term_bounds (show _ ≤ start by omega) (by omega) lo hi
    rw [hlog]
    exact hplaced.setBuffer_same (hagree.mono ⟨Int.le_refl 0, hframe'⟩) hlo hhi hx
  have hthere : ∀ i, 0 ≤ i → i < (Slot.pending c.claim.frameLength).space → t.log.bytes p (i + start) = b.bytes i := by
    intro i lo hi
    rw [hlog]
    exact hplaced.setBuffer_bytes s.log b lo hi
  have hzeroEnd : producerPosition p n off ≤ zeroEnd p n off := by
    have hpos := p.termLength_pos
    have hbounds := h.window_bounds
    have htwo : (n + 2) * p.termLength = (n + 1) * p.termLength + p.termLength := by ring
    unfold zeroEnd
    split <;> omega
  have hnew : slotsOf p.maxPayloadLength (pre ++ .record ⟨c.position, outcome⟩ :: post) =
      consumed ++ (before ++ slot :: slotsOf p.maxPayloadLength post) := by
    rw [slotsOf_append, slotsOf_cons, Entry.slots, hslots, hpre, List.append_assoc]
    rfl
  refine ⟨before ++ slot :: slotsOf p.maxPayloadLength post, ?_, ?_, hrecords, ?_, ?_, hnew, h.committed,
    himage.trans h.image, ?_, ?_, ?_, ?_, h.window, h.ahead, ?_, hclaims, hdistinct⟩
  · rw [hlog]
    exact h.logAt.of_tails rfl rfl
  · rw [hlimit]
    exact h.limit
  · intro e he
    rcases List.mem_append.mp he with he | he
    · exact h.sane e (by rw [hentries]; exact List.mem_append_left _ he)
    · rcases List.mem_cons.mp he with rfl | he
      · exact hsane
      · exact h.sane e (by rw [hentries]; exact List.mem_append_right _ (List.mem_cons_of_mem _ he))
  · have hpositioned := h.positioned
    rw [hentries] at hpositioned
    refine hpositioned.replace ?_
    rw [hslots, Entry.slotsOf, Int.sub_add_cancel, totalSpace_cons, totalSpace_cons, hsize]
  · rw [hconsumer]
    refine hsound.stable h.consumer ?_
    intro first rest hfirst hcommitted
    cases before with
    | nil =>
      rw [hlive] at hfirst
      obtain ⟨rfl, _⟩ := List.cons.inj hfirst
      cases hcommitted
    | cons x before =>
      rw [hlive] at hfirst
      obtain ⟨rfl, _⟩ := List.cons.inj hfirst
      exact ⟨_, rfl⟩
  · refine (hbefore.congr fun x lo hi => hsame x lo (by omega) (.inl hi)).append ⟨?_, ?_⟩
    · have hshift := hat.shift (t.log.bytes p) start fun i lo hi => hthere i lo (by omega)
      rwa [Int.zero_add] at hshift
    · rw [hsize]
      exact hafter.congr fun x lo hi => hsame x (by omega) (by omega) (.inr lo)
  · refine (hstampedBefore.congr hbefore fun x lo hi => hsame x lo (by omega) (.inl hi)).append
      (hbefore.congr fun x lo hi => hsame x lo (by omega) (.inl hi)) ⟨?_, ?_⟩
    · have hnow : getInt32 (t.log.bytes p) (20 + start) = getInt32 b.bytes 20 :=
        getInt32_shift fun i lo hi => hthere i (by omega) (by omega)
      have hthen : getInt32 (s.log.bytes p) (20 + start) = getInt32 (c.claim.buffer s.log).bytes 20 :=
        getInt32_shift fun i lo hi => (hplaced.buffer_bytes s.log (by omega) (by omega)).symm
      rw [Int.add_comm start, hnow, hid, ← hthen, Int.add_comm 20]
      exact hstampedThis
    · rw [hsize]
      exact hstampedAfter.congr hafter fun x lo hi => hsame x (by omega) (by omega) (.inr lo)
  · refine hfitsBefore.append ⟨?_, ?_⟩
    · rw [← hstart', hsize]
      exact hfitsThis
    · rw [← hstart', hsize]
      exact hfitsAfter
  · intro x lo hi
    rw [hsame x (by omega) hi (.inr (by omega))]
    exact h.zero x lo hi

end Claimed

section Claims

variable {c : OpenClaim}

/-- A claim is pending, and lies within its term. -/
theorem claim_pending (hc : c ∈ s.claims) : (Slot.pending c.claim.frameLength).At p.sessionID (c.claim.buffer s.log).bytes 0 ∧
    c.claim.frameLength ≤ p.termLength ∧ c.claim.frameLength ≤ 1073741824 := by
  obtain ⟨pre, _, hentries, hindex, hoffset, _⟩ := h.claims c hc
  obtain ⟨_, _, _, hplaced, hpending⟩ := h.claim_at hentries hindex hoffset
  have hframe : c.claim.frameLength ≤ (Slot.pending c.claim.frameLength).space :=
    (Slot.space_bounds (s := .pending c.claim.frameLength) hpending.1).1
  have hinside := hplaced.inside
  have hmod := Int.emod_nonneg (totalSpace (slotsOf p.maxPayloadLength pre)) (Int.ne_of_gt p.termLength_pos)
  have hle := p.termLength_le
  exact ⟨hpending, by omega, by omega⟩

variable {consumer : Consumer σ} {st : σ} (hsound : consumer.Sound p st Q)

include hsound

/-- The owner of a claim stores into it. -/
theorem filled (hc : c ∈ s.claims) {index : Int} {bytes : List UInt8} (hindex' : 24 ≤ index)
    (hend : index + bytes.length ≤ c.claim.frameLength) :
    Invariant p Q (s.setLog (c.claim.fill s.log index bytes)) := by
  obtain ⟨pre, post, hentries, hindex, hoffset, _⟩ := h.claims c hc
  have hsane := h.sane (.record ⟨c.position, .pending (c.claim.frameLength - 32)⟩)
    (by rw [hentries]; exact List.mem_append_right pre List.mem_cons_self)
  have hslots : Entry.slotsOf p.maxPayloadLength (.pending (c.claim.frameLength - 32)) = [.pending c.claim.frameLength] := by
    rw [Entry.slotsOf, Int.sub_add_cancel]
  have hframe := AgreeOutside.write (c.claim.buffer s.log).bytes index bytes
  obtain ⟨live', h'⟩ := h.stored hentries hindex hoffset hsound (s.setLog (c.claim.fill s.log index bytes))
    (.pending (c.claim.frameLength - 32)) (b := ⟨write (c.claim.buffer s.log).bytes index bytes, c.claim.frameLength⟩)
    hslots rfl hsane (Claim.fill_at (h.claim_pending hc).1 hindex') (hframe.getInt32 (by omega))
    (hframe.mono ⟨by omega, hend⟩) rfl rfl
    rfl rfl (by rw [← hentries]; exact h.records) (by rw [← hentries]; exact h.claims) h.distinct
  exact ⟨_, _, _, _, _, h'⟩

/-- The owner of a claim decides it. -/
theorem resolved {k : Nat} (hk : s.claims[k]? = some c)
    {outcome : Outcome} {slot : Slot} {b : Buffer} (hslots : Entry.slotsOf p.maxPayloadLength outcome = [slot])
    (hspace : slot.frameLength = c.claim.frameLength)
    (hsane : (Entry.record ⟨c.position, outcome⟩).Sane p.termLength)
    (hat : slot.At p.sessionID b.bytes 0) (hid : getInt32 b.bytes 20 = getInt32 (c.claim.buffer s.log).bytes 20)
    (hagree : AgreeOutside 0 c.claim.frameLength (c.claim.buffer s.log).bytes b.bytes) :
    Invariant p Q (s.resolved k c.position outcome (c.claim.setBuffer s.log b)) := by
  obtain ⟨pre, post, hentries, hindex, hoffset, _⟩ := h.claims c (List.mem_of_getElem? hk)
  have hsize : slot.space = (Slot.pending c.claim.frameLength).space := by
    unfold Slot.space
    rw [hspace]
    rfl
  have hold : ∀ c' ∈ s.claims.eraseIdx k, c' ∈ s.claims ∧ c'.position ≠ c.position := by
    intro c' hc'
    obtain ⟨i, hik, hi⟩ := List.mem_eraseIdx_iff_getElem?.mp hc'
    refine ⟨List.mem_of_getElem? hi, fun heq => hik ?_⟩
    have hlt : i < (s.claims.map OpenClaim.position).length := by
      rw [List.length_map]
      exact (List.getElem?_eq_some_iff.mp hi).1
    refine (List.getElem?_inj hlt h.distinct).mp ?_
    rw [List.getElem?_map, List.getElem?_map, hi, hk, Option.map_some, Option.map_some, heq]
  have hstored := h.stored hentries hindex hoffset hsound (s.resolved k c.position outcome (c.claim.setBuffer s.log b))
    outcome hslots hspace hsane hat hid hagree rfl rfl rfl rfl ?_ ?_ ?_
  · obtain ⟨live', h'⟩ := hstored
    exact ⟨_, _, _, _, _, h'⟩
  · show s.records.map _ = _
    have hpositioned := h.positioned
    have hall := h.sane
    rw [hentries] at hpositioned hall
    rw [h.records, ← records_resolve, hentries, resolve_at p.maxPayloadLength_pos outcome hpositioned hall]
  · intro c' hc'
    obtain ⟨hmem, hne⟩ := hold c' hc'
    have hclaim := h.claims c' hmem
    rw [hentries] at hclaim
    refine ClaimAt.replace hclaim hne ?_
    rw [hslots, Entry.slotsOf, Int.sub_add_cancel, totalSpace_cons, totalSpace_cons, hsize]
  · exact h.distinct.sublist ((List.eraseIdx_sublist _ _).map _)

/-- **A commit keeps the invariant**: the claim's bytes are a message. -/
theorem commits {k : Nat} (hk : s.claims[k]? = some c) :
    ∃ log, c.claim.commit s.log = .ok log ∧
      Invariant p Q (s.resolved k c.position (.message (c.claim.message s.log)) log) := by
  obtain ⟨_, _, _, _, _, hpayload⟩ := h.claims c (List.mem_of_getElem? hk)
  obtain ⟨hpending, hterm, hsmall⟩ := h.claim_pending (List.mem_of_getElem? hk)
  have hge := hpending.1
  have hcount : ((c.claim.message s.log).length : Int) = c.claim.frameLength - 32 := by
    rw [Claim.message, length_read, headerLength]
    exact Int.toNat_of_nonneg (by omega)
  obtain ⟨b, hcommit, hat, hid, hagree⟩ := Claim.commit_ok hpending hsmall
  refine ⟨_, hcommit, h.resolved hsound hk ?_ ?_ ?_ hat hid hagree⟩
  · rw [Entry.slotsOf, messageSlots, if_pos (by omega)]
  · rw [Slot.frameLength, hcount]
    omega
  · show ((c.claim.message s.log).length : Int) ≤ _
    omega

/-- **An abort keeps the invariant**: the claim is padding. -/
theorem aborts {k : Nat} (hk : s.claims[k]? = some c) :
    ∃ log, c.claim.abort s.log = .ok log ∧
      Invariant p Q (s.resolved k c.position (.aborted (c.claim.frameLength - headerLength)) log) := by
  obtain ⟨hpending, _, hsmall⟩ := h.claim_pending (List.mem_of_getElem? hk)
  obtain ⟨b, habort, hat, hid, hagree⟩ := Claim.abort_ok hpending hsmall
  have hge := hpending.1
  refine ⟨_, habort, h.resolved hsound hk ?_ rfl ?_ hat hid hagree⟩
  · rw [Entry.slotsOf, headerLength, Int.sub_add_cancel]
  · show 0 ≤ c.claim.frameLength - headerLength
    unfold headerLength
    omega

end Claims

/-! ## Polls -/

/-- Behind the last slot the log has no frame. -/
theorem zero_at_end {x : Int} (lo : producerPosition p n off ≤ x) (hi : x < producerPosition p n off + 32) :
    s.log.bytes p x = 0 := by
  have hge := p.termLength_ge
  have haligned := h.logAt.off_aligned
  have hlength := p.termLength_aligned
  have hone := Int.add_mul n 1 p.termLength
  have htwo := Int.add_mul n 2 p.termLength
  refine h.zero x lo ?_
  unfold producerPosition at hi
  unfold zeroEnd
  split <;> omega

theorem producerPosition_le : producerPosition p n off ≤ p.maxPossiblePosition := by
  have hlt := h.logAt.n_lt
  have hbounds := h.window_bounds
  have hterms : (n + 1) * p.termLength ≤ 2147483648 * p.termLength :=
    Int.mul_le_mul_of_nonneg_right (by omega) (Int.le_of_lt p.termLength_pos)
  rw [p.maxPossiblePosition_eq, Int.mul_comm p.termLength]
  omega

/-- The image finds the slots that are not consumed, up to the end of the term. -/
theorem holds :
    ∃ row rest, live = row ++ rest ∧ (live ≠ [] → row ≠ []) ∧
      Image.Holds p.toLogParams (s.log.termBuffer p) p.sessionID (totalSpace consumed) row ∧
      InTerm p (s.log.termBuffer p) (totalSpace consumed) row := by
  have hpos := p.termLength_pos
  have hlength := p.termLength_aligned
  have haligned := totalSpace_aligned consumed
  have hlow := Int.emod_nonneg (totalSpace consumed) (show p.termLength ≠ 0 by omega)
  obtain ⟨row, rest, rfl, hin, hfull, hne⟩ := h.fits.row hpos h.laid.space_pos
  have hbounds := h.window_bounds
  have hlt := h.logAt.n_lt
  have hlaid := h.laid.of_append.1
  have hstop := h.laid.stop_eq
  rw [totalSpace_append] at hstop
  -- the term of the position begins at `q * termLength`
  obtain ⟨q, hq⟩ : ∃ q, q = totalSpace consumed / p.termLength := ⟨_, rfl⟩
  have hsplit : totalSpace consumed = q * p.termLength + totalSpace consumed % p.termLength := by
    rw [hq, Int.mul_comm, Int.mul_ediv_add_emod]
  have hbyte : ∀ i, 0 ≤ i → i < p.termLength → s.log.terms (q % 3) i = s.log.bytes p (q * p.termLength + i) :=
    fun i lo hi => (Log.bytes_at p s.log q lo hi).symm
  have hbuffer : (Image.bufferAt p.toLogParams (s.log.termBuffer p) (totalSpace consumed)).bytes =
      s.log.terms (q % 3) := by
    rw [hq]
    rfl
  have hmoved : ∀ i, totalSpace consumed ≤ i → i < totalSpace consumed + totalSpace row →
      s.log.terms (q % 3) (i + -(q * p.termLength)) = s.log.bytes p i := by
    intro i lo hi
    rw [hbyte _ (by omega) (by omega)]
    exact congrArg (s.log.bytes p) (by omega)
  have hbegin : totalSpace consumed + -(q * p.termLength) = totalSpace consumed % p.termLength := by omega
  have hmax := h.producerPosition_le
  have hle : totalSpace consumed + totalSpace row ≤ producerPosition p n off := h.laid.of_append.2.le
  refine ⟨row, rest, rfl, hne, ⟨h.position_nonneg, ?_, rfl, p.termLength_le, hlow, ⟨?_, hlength⟩, ?_, hin, ?_⟩,
    ?_, Int.le_trans hle hmax⟩
  · exact Int.le_trans hlaid.le (Int.le_trans hle hmax)
  · obtain ⟨k, hk⟩ : (32 : Int) ∣ p.termLength := Int.dvd_of_emod_eq_zero hlength
    rw [Int.emod_emod_of_dvd _ ⟨k, hk⟩]
    exact haligned
  · have hshift := hlaid.shift (s.log.terms (q % 3)) (-(q * p.termLength)) hmoved
    rw [hbuffer]
    rwa [Int.add_right_comm, hbegin] at hshift
  · intro hopen
    have hopen' : totalSpace consumed % p.termLength + totalSpace row < p.termLength := hopen
    have hrest : rest = [] := by
      by_contra hrest
      have := hfull hrest
      omega
    rw [hrest, totalSpace_nil, Int.add_zero] at hstop
    rw [hbuffer]
    refine Int.le_of_eq (getInt32_zero fun i lo hi => ?_)
    have hend : (totalSpace consumed % p.termLength + totalSpace row) % 32 = 0 := by
      have := totalSpace_aligned row
      have := Int.emod_emod_of_dvd (totalSpace consumed) (Int.dvd_of_emod_eq_zero hlength)
      omega
    rw [hbyte i (by omega) (by omega)]
    exact h.zero_at_end (by omega) (by omega)
  · have hstamped := (h.stamped.of_append hlaid).1
    have hshift := hstamped.shift hlaid (s.log.terms (q % 3)) (fun _ => termIdAt p (totalSpace consumed))
      (-(q * p.termLength)) hmoved ?_
    · rw [hbuffer]
      rwa [hbegin] at hshift
    · -- the whole row lies in one term
      intro i lo hi
      have hterm : i / p.termLength = q := by
        rw [Int.ediv_eq_iff_of_pos hpos]
        omega
      rw [termIdAt, termIdAt, hterm, hq]

/-- No builder grows past a term. -/
theorem light : Light p.termLength.toNat ([], []) (consumed ++ live) := by
  rw [← h.split]
  exact assemble_light p.maxPayloadLength_pos (Int.le_of_lt p.termLength_pos) h.sane []

/-- The reader moves over committed slots. -/
theorem moved {xs live' : List Slot} (hlive : live = xs ++ live') (hcommitted : Committed xs) {st : σ}
    (hq : Q (consumed ++ xs) live' st) :
    Inv p Q { s with image := ⟨false, totalSpace (consumed ++ xs)⟩, consumer := st } n off entries (consumed ++ xs)
      live' := by
  have hlaid := h.laid
  have hfits := h.fits
  have hlimit := h.limit
  have hwindow := h.window
  have hahead := h.ahead
  rw [hlive] at hlaid hfits
  obtain ⟨hpassed, hleft⟩ := hlaid.of_append
  have hstamped := h.stamped
  rw [hlive] at hstamped
  have hforward := hpassed.le
  rw [← totalSpace_append] at hpassed hleft hforward
  refine ⟨h.logAt, ?_, h.records, h.sane, h.positioned, ?_, h.committed.append hcommitted, rfl, hq, hleft,
    (hstamped.of_append hpassed).2, ?_, ?_, ?_, h.zero, h.claims, h.distinct⟩
  · show s.publication.limit ≤ _
    omega
  · rw [h.split, hlive, List.append_assoc]
  · rw [totalSpace_append]
    exact hfits.split.2
  · omega
  · omega

/-- **A poll keeps the invariant.** -/
theorem polled {consumer : Consumer σ} {st : σ} (hsound : consumer.Sound p st Q) (fragmentLimit : Int) :
    ∃ t xs live', step p consumer s (.poll fragmentLimit) = .ok t ∧ live = xs ++ live' ∧
      Inv p Q t n off entries (consumed ++ xs) live' := by
  obtain ⟨row, rest, rfl, _, hholds, hterm⟩ := h.holds
  have hlight := h.light
  rw [← List.append_assoc] at hlight
  obtain ⟨count, xs, row', st', rfl, hcommitted, hpoll, hq⟩ :=
    hsound.poll fragmentLimit hholds hterm hlight.left h.consumer
  refine ⟨_, xs, row' ++ rest, ?_, List.append_assoc _ _ _, h.moved (List.append_assoc _ _ _) hcommitted hq⟩
  rw [← h.image] at hpoll
  rw [step, hpoll]
  rfl

/-! ## The driver -/

theorem claimedPosition_eq : s.log.claimedPosition p = producerPosition p n off := by
  rw [Log.claimedPosition, h.logAt.count, h.logAt.index_eq, h.logAt.tailOffset_tail, producerPosition]

/-- The driver zeroes nothing that is claimed and not consumed. -/
theorem cleaned {index lo hi : Int}
    (hkeep : ∀ x, s.position ≤ x → x < s.log.claimedPosition p →
      ¬(x / p.termLength % 3 = index ∧ lo ≤ x % p.termLength ∧ x % p.termLength < hi)) :
    Inv p Q (s.setLog (s.log.clean index lo hi)) n off entries consumed live := by
  have hbyte : ∀ x, (s.log.clean index lo hi).bytes p x =
      if x / p.termLength % 3 = index ∧ lo ≤ x % p.termLength ∧ x % p.termLength < hi then 0 else s.log.bytes p x := by
    intro x
    unfold Log.bytes Log.clean
    by_cases hindex : x / p.termLength % 3 = index
    · simp only [hindex, if_true, true_and]
    · simp only [hindex, if_false, false_and]
  rw [h.position_eq, h.claimedPosition_eq] at hkeep
  have hkept : ∀ x, totalSpace consumed ≤ x → x < producerPosition p n off →
      (s.log.clean index lo hi).bytes p x = s.log.bytes p x :=
    fun x hx hx' => (hbyte x).trans (if_neg (hkeep x hx hx'))
  refine { h with
    logAt := h.logAt.of_tails rfl rfl
    laid := h.laid.congr hkept
    stamped := h.stamped.congr h.laid hkept
    zero := ?_ }
  intro x hx hx'
  refine (hbyte x).trans ?_
  split
  · rfl
  · exact h.zero x hx hx'

/-- The limit, and what is no part of the invariant. -/
theorem limited {limit : Int} (hlimit : limit ≤ s.position + p.termLength / 2) (isConnected isClosed : Bool) :
    Inv p Q { s with publication := ⟨s.log, limit, isConnected, isClosed⟩ } n off entries consumed live :=
  { h with limit := by rw [h.position_eq] at hlimit; exact hlimit }

/-! ## What the invariant says -/

theorem messages_eq : s.messages = messagesOf entries := by
  rw [State.messages, h.records, List.filterMap_filterMap]
  rfl

theorem records_increasing : s.records.Pairwise fun r r' => r.position < r'.position := by
  rw [h.records]
  exact h.positioned.increasing p.maxPayloadLength_pos h.sane

/-- The reader is at the end if nothing is left. -/
theorem at_end_iff : s.position = s.log.claimedPosition p ↔ live = [] := by
  have hstop := h.laid.stop_eq
  rw [h.position_eq, h.claimedPosition_eq]
  constructor
  · intro hend
    by_contra hne
    have := totalSpace_pos h.laid.space_pos hne
    omega
  · rintro rfl
    rw [hstop, totalSpace_nil, Int.add_zero]

/-- The reader has not passed a pending claim. -/
theorem pending_above {r : Record} (hr : r ∈ s.records) {length : Int} (hpending : r.outcome = .pending length) :
    s.position + (length + 63) / 32 * 32 ≤ r.position := by
  rw [h.records] at hr
  obtain ⟨e, he, hrecord⟩ := List.mem_filterMap.mp hr
  obtain rfl : e = .record r := by
    cases e with
    | endOfTerm n => cases hrecord
    | record r' => rw [Option.some.inj hrecord]
  obtain ⟨position, outcome⟩ := r
  obtain rfl : outcome = .pending length := hpending
  obtain ⟨pre, post, hentries⟩ := List.append_of_mem he
  obtain ⟨before, hlive, hpre⟩ := h.claim_live hentries
  have hlaid := h.laid
  have hpositioned := h.positioned
  rw [hlive] at hlaid
  rw [hentries] at hpositioned
  have hbefore := hlaid.of_append.1.le
  have hposition : position = 0 + _ + ((length + 32 + 31) / 32 * 32 + 0) := hpositioned.split.2.1 _ rfl
  rw [hpre, totalSpace_append] at hposition
  rw [h.position_eq]
  simp only
  omega

end Inv

/-! ## Runs -/

section Runs

variable {σ : Type} {p : StreamParams} {Q : List Slot → List Slot → σ → Prop} {consumer : Consumer σ} {initial : σ}
  (hsound : consumer.Sound p initial Q)

include hsound

/-- **A step that the driver's assumptions allow keeps the invariant**, and no admissible step fails,
unless a frame may be longer than half a term. -/
theorem step_cases {s : State σ} (hs : Invariant p Q s) {a : Action} (ha : a.Admissible p s) :
    (∃ t, step p consumer s a = .ok t ∧ (Driver p s t a → Invariant p Q t)) ∨
      step p consumer s a = .error .panic ∧ p.termLength < 2 * p.mtu := by
  have hkept := hs
  obtain ⟨n, off, entries, consumed, live, h⟩ := hs
  cases a with
  | offer buffer offset length supplier =>
    obtain ⟨hsrc, hmax⟩ := ha
    have hlength := hsrc.length_bytes
    have hreq := requires_message p hsrc.length_nonneg hmax
    have hle := hreq.length_le
    rcases offer_cases h.logAt h.room hsrc hmax supplier with ⟨r, hoffer, hr⟩ | ⟨hpanic, hhalf⟩
    · refine .inl ⟨s.returned r (.message (sourceBytes buffer offset length)), ?_, fun hclean => ?_⟩
      · rw [step, hoffer]
        rfl
      · exact h.offered hsound hreq.le hreq.pos hr (by omega) hclean
    · exact .inr ⟨by rw [step, hpanic]; rfl, hreq.half hhalf⟩
  | offer2 src supplier =>
    obtain ⟨hsrc, hmax⟩ := ha
    have hlength := hsrc.length_bytes
    have hreq := requires_message p (Int.add_nonneg hsrc.one.length_nonneg hsrc.two.length_nonneg) hmax
    have hle := hreq.length_le
    rcases offer2_cases h.logAt h.room hsrc hmax supplier with ⟨r, hoffer, hr⟩ | ⟨hpanic, hhalf⟩
    · refine .inl ⟨s.returned r (.message (twoBytes src)), ?_, fun hclean => ?_⟩
      · rw [step, hoffer]
        rfl
      · exact h.offered hsound hreq.le hreq.pos hr (by omega) hclean
    · exact .inr ⟨by rw [step, hpanic]; rfl, hreq.half hhalf⟩
  | tryClaim length =>
    obtain ⟨hlo, hmax⟩ := ha
    have hreq := requires_frame p hlo hmax
    rcases tryClaim_cases h.logAt h.room hlo hmax with ⟨r, hclaim, hr⟩ | ⟨hpanic, hhalf⟩
    · refine .inl ⟨{ s.returned r (.pending length) with claims := s.claims ++ newClaims r }, ?_, fun hclean => ?_⟩
      · rw [step, hclaim]
        rfl
      · exact h.claimed hsound hreq.le hreq.pos hlo hmax hr hclean
    · exact .inr ⟨by rw [step, hpanic]; rfl, hreq.half hhalf⟩
  | fill k index bytes =>
    cases hk : s.claims[k]? with
    | none => exact .inl ⟨s, by simp only [step, hk]; rfl, fun _ => hkept⟩
    | some c =>
      obtain ⟨hlo, hhi⟩ := ha c hk
      refine .inl ⟨_, ?_, fun _ => h.filled hsound (List.mem_of_getElem? hk) hlo hhi⟩
      simp only [step, hk]
      rfl
  | commit k =>
    cases hk : s.claims[k]? with
    | none => exact .inl ⟨s, by simp only [step, hk]; rfl, fun _ => hkept⟩
    | some c =>
      obtain ⟨log, hcommit, h'⟩ := h.commits hsound hk
      refine .inl ⟨_, ?_, fun _ => h'⟩
      simp only [step, hk, hcommit]
      rfl
  | abort k =>
    cases hk : s.claims[k]? with
    | none => exact .inl ⟨s, by simp only [step, hk]; rfl, fun _ => hkept⟩
    | some c =>
      obtain ⟨log, habort, h'⟩ := h.aborts hsound hk
      refine .inl ⟨_, ?_, fun _ => h'⟩
      simp only [step, hk, habort]
      rfl
  | close =>
    have hlimit := h.limit
    rw [← h.position_eq] at hlimit
    exact .inl ⟨_, rfl, fun _ => ⟨n, off, entries, consumed, live, h.limited hlimit s.publication.isConnected true⟩⟩
  | poll fragmentLimit =>
    obtain ⟨t, xs, live', hpoll, _, h'⟩ := h.polled hsound fragmentLimit
    exact .inl ⟨t, hpoll, fun _ => ⟨n, off, entries, consumed ++ xs, live', h'⟩⟩
  | driver limit isConnected =>
    exact .inl ⟨_, rfl, fun hlimit => ⟨n, off, entries, consumed, live, h.limited hlimit isConnected s.publication.isClosed⟩⟩
  | clean index lo hi => exact .inl ⟨_, rfl, fun hkeep => ⟨n, off, entries, consumed, live, h.cleaned hkeep⟩⟩

/-- **The invariant holds of every reachable state.** -/
theorem reachable_inv {s : State σ} (hs : (system p consumer initial).Reachable s) : Invariant p Q s := by
  refine hs.invariant ?_ ?_
  · rintro s rfl
    exact ⟨0, 0, [], [], [], Inv.initial hsound⟩
  · rintro s a t hinv ⟨hadmissible, hstep, hdriver⟩
    rcases step_cases hsound hinv hadmissible with ⟨t', ht', hkeeps⟩ | ⟨hpanic, _⟩
    · obtain rfl : t' = t := Except.ok.inj (ht'.symm.trans hstep)
      exact hkeeps hdriver
    · cases hpanic.symm.trans hstep

end Runs

/-! ## Executed runs -/

section Executed

variable {σ : Type} {p : StreamParams} {consumer : Consumer σ}

theorem cleanAhead_of_leavesRoom {s t : State σ} (h : leavesRoom p s t = true) : CleanAhead p s t := by
  intro hfull
  simp only [leavesRoom, decide_eq_true_eq] at h
  omega

theorem next_of_calmStep {s t : State σ} {a : Action} (initial : σ) (h : calmStep p consumer s a = some t) :
    (system p consumer initial).next s a t := by
  unfold calmStep at h
  cases hstep : step p consumer s a with
  | error e => simp [hstep] at h
  | ok t' =>
    simp only [hstep, Option.ite_none_right_eq_some, Option.some.injEq] at h
    obtain ⟨hcalm, rfl⟩ := h
    refine ⟨?_, hstep, ?_⟩
    · cases a with
      | offer buffer offset length supplier =>
        simp only [Action.isCalm, Bool.and_eq_true, decide_eq_true_eq] at hcalm
        obtain ⟨⟨⟨⟨⟨hlt, hoffset⟩, hlength⟩, hin⟩, hmax⟩, _⟩ := hcalm
        exact ⟨⟨hlt, hoffset, hlength, hin⟩, hmax⟩
      | tryClaim length =>
        simp only [Action.isCalm, Bool.and_eq_true, decide_eq_true_eq] at hcalm
        exact hcalm.1
      | fill k index bytes =>
        intro c hc
        simp only [Action.isCalm, hc, Option.all_some, Bool.and_eq_true, decide_eq_true_eq] at hcalm
        exact hcalm
      | offer2 _ _ | clean _ _ _ => cases hcalm
      | _ => trivial
    · cases a with
      | offer buffer offset length supplier | tryClaim length =>
        simp only [Action.isCalm, Bool.and_eq_true] at hcalm
        exact cleanAhead_of_leavesRoom hcalm.2
      | driver limit isConnected =>
        simp only [Action.isCalm, decide_eq_true_eq] at hcalm
        exact hcalm
      | offer2 _ _ | clean _ _ _ => cases hcalm
      | _ => trivial

/-- An executed run is a run. -/
theorem exists_reachable_of_calm (p : StreamParams) (consumer : Consumer σ) (initial : σ) (actions : List Action)
    (q : State σ → Bool)
    (h : (System.exec (calmStep p consumer) (State.initial p initial) actions).any q = true) :
    ∃ t, (system p consumer initial).Reachable t ∧ q t = true := by
  obtain ⟨t, ht, hq⟩ := System.exists_reachable (· = State.initial p initial) (calmStep p consumer) rfl actions q h
  refine ⟨t, ?_, hq⟩
  refine ht.invariant (fun s hs => .start hs) ?_
  exact fun s a t hs hstep => hs.step a (next_of_calmStep initial hstep)

end Executed

end AeronGo.Stream
