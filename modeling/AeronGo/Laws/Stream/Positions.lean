import AeronGo.Laws.Publication.Lengths

/-!
# Positions end to end

A position is computed in three places: by a call that returns one (`newPosition`), by an image that
moves its subscriber position, and by `Header.Position`, from the term id and the offset of a frame. The
handler here notes what headers say. What was noted are the ends of the frames consumed (`Noted`), so the
three agree (`positions_agree`): the position of a header is the end of its frame, which for the last
fragment of a message is what the call returned, and the image is at the end of the last fragment and of
the padding behind it. Both sides find the same partition for a position.
-/

namespace AeronGo.Stream

open Machine Util Atomic LogBuffer

/-- A fragment as a handler sees it: `Header.Position`, the flags and the payload. -/
structure Seen where
  position : Int
  flags : UInt8
  payload : List UInt8
deriving DecidableEq, Repr

/-- The last fragment of a message. -/
def Seen.isLast (x : Seen) : Bool := x.flags &&& endFrag = endFrag

/-- A handler that notes what it sees. -/
def note (p : StreamParams) : FragmentHandler (List Seen) := fun seen buf offset length headerOffset => do
  let payload ← buf.writeBytes offset length
  let flags ← getFlags buf headerOffset
  let position ← headerPosition p.toLogParams buf headerOffset
  return seen ++ [⟨position, flags, payload⟩]

/-- Polls that note. -/
def noting (p : StreamParams) : Consumer (List Seen) := fun termBuffers image fragmentLimit seen =>
  image.poll p.toLogParams termBuffers (note p) fragmentLimit seen

/-! ## The ends of frames -/

/-- The fragments among slots, each with the position where its frame ends. -/
def seenFrom : Int → List Slot → List Seen
  | _, [] => []
  | a, .data flags payload :: rest =>
    ⟨a + (Slot.data flags payload).space, flags, payload⟩ :: seenFrom (a + (Slot.data flags payload).space) rest
  | a, .padding n :: rest => seenFrom (a + (Slot.padding n).space) rest
  | a, .pending n :: rest => seenFrom (a + (Slot.pending n).space) rest

theorem seenFrom_append (a : Int) (xs ys : List Slot) :
    seenFrom a (xs ++ ys) = seenFrom a xs ++ seenFrom (a + totalSpace xs) ys := by
  induction xs generalizing a with
  | nil => rw [totalSpace_nil, Int.add_zero]; rfl
  | cons x xs ih =>
    rw [List.cons_append, totalSpace_cons, ← Int.add_assoc]
    cases x with
    | data flags payload => rw [seenFrom, ih, seenFrom, List.cons_append]
    | padding n | pending n => rw [seenFrom, ih, seenFrom]

variable {a maxPayload n off : Int} {entries : List Entry} {log log' : Log} {p : StreamParams}

/-- Committed slots without a fragment are padding. -/
theorem padding_of_seenFrom_nil {xs : List Slot} (hcommitted : Committed xs) (h : seenFrom a xs = []) :
    ∀ s ∈ xs, ∃ n, s = .padding n := by
  induction xs generalizing a with
  | nil => exact fun s hs => nomatch hs
  | cons x xs ih =>
    cases x with
    | data flags payload => cases h
    | pending n => cases hcommitted (.pending n) List.mem_cons_self
    | padding n =>
      intro s hs
      rcases List.mem_cons.mp hs with rfl | hs
      · exact ⟨n, rfl⟩
      · exact ih (fun t ht => hcommitted t (List.mem_cons_of_mem _ ht)) h s hs

/-- The last fragment of committed slots ends where the padding behind it begins. -/
theorem seenFrom_getLast {xs : List Slot} (hcommitted : Committed xs) {x : Seen}
    (h : (seenFrom a xs).getLast? = some x) :
    ∃ before paddings, xs = before ++ paddings ∧ (∀ s ∈ paddings, ∃ n, s = .padding n) ∧
      a + totalSpace before = x.position := by
  induction xs generalizing a with
  | nil => cases h
  | cons s xs ih =>
    have htail : Committed xs := fun t ht => hcommitted t (List.mem_cons_of_mem s ht)
    -- a fragment further on is the last one in any case
    have hlater : ∀ y, (seenFrom (a + s.space) xs).getLast? = some y → y = x →
        ∃ before paddings, s :: xs = before ++ paddings ∧ (∀ t ∈ paddings, ∃ n, t = .padding n) ∧
          a + totalSpace before = x.position := by
      rintro y hy rfl
      obtain ⟨before, paddings, rfl, hpaddings, hend⟩ := ih htail hy
      refine ⟨s :: before, paddings, rfl, hpaddings, ?_⟩
      rw [totalSpace_cons, ← Int.add_assoc, hend]
    cases s with
    | data flags payload =>
      rw [seenFrom, List.getLast?_cons] at h
      cases hlast : (seenFrom (a + (Slot.data flags payload).space) xs).getLast? with
      | some y =>
        rw [hlast] at h
        exact hlater y hlast (Option.some.inj h)
      | none =>
        rw [hlast] at h
        obtain rfl := Option.some.inj h
        refine ⟨[.data flags payload], xs, rfl, padding_of_seenFrom_nil htail (List.getLast?_eq_none_iff.mp hlast), ?_⟩
        rw [totalSpace_cons, totalSpace_nil, Int.add_zero]
        rfl
    | padding n => exact hlater x h rfl
    | pending n => cases hcommitted (.pending n) List.mem_cons_self

/-! ## What is noted -/

/-- What was noted are the fragments consumed. -/
def Noted (consumed _live : List Slot) (seen : List Seen) : Prop := seen = seenFrom 0 consumed

/-- **The position of a header is the end of its frame.** -/
theorem headerPosition_eq {buf : Buffer} {termBegin offset : Int} {consumed : List Slot}
    {flags : UInt8} {payload : List UInt8} (hs : Addressable buf) (lo : 0 ≤ offset) (haligned : offset % 32 = 0)
    (hin : offset + (Slot.data flags payload).space ≤ buf.length)
    (hat : (Slot.data flags payload).At p.sessionID buf.bytes offset) (hnext : Next p buf termBegin offset consumed) :
    headerPosition p.toLogParams buf offset = .ok (totalSpace consumed + (Slot.data flags payload).space) := by
  have hsmall : buf.length ≤ 1073741824 := hs
  have hspace : (Slot.data flags payload).space = ((payload.length : Int) + 63) / 32 * 32 := space_data flags payload
  have hlength : getFrameLength buf offset = .ok (payload.length + 32) := by
    rw [getFrameLength, Buffer.getInt32_ok hs lo (by omega), hat.1]
  have hid : buf.getInt32 (i32 (offset + 20)) = .ok (termIdAt p (totalSpace consumed)) := by
    rw [i32_eq (by omega), Buffer.getInt32_ok hs (by omega) (by omega), hnext.termId]
  have hword : i32 (offset + (payload.length + 32)) = offset + (payload.length + 32) := i32_eq (by omega)
  have halign : alignInt32 (offset + (payload.length + 32)) frameAlignment = offset + (Slot.data flags payload).space := by
    rw [frameAlignment, alignInt32_eq (by omega) (by omega), hspace]
    omega
  -- the term id gives back the term
  obtain ⟨q, rfl⟩ : ∃ q, termBegin = q * p.termLength := by
    obtain ⟨q, hq⟩ := Int.dvd_of_emod_eq_zero hnext.begins
    exact ⟨q, by rw [hq, Int.mul_comm]⟩
  have hbufLength := hnext.length_eq
  have hplace := hnext.place
  have hbelow := hnext.below
  have hpos := p.termLength_pos
  have hle := p.termLength_le
  have hnonneg : 0 ≤ q := by
    have hconsumed := hnext.nonneg
    by_contra hneg
    have hq : q * p.termLength ≤ -1 * p.termLength := Int.mul_le_mul_of_nonneg_right (by omega) (Int.le_of_lt hpos)
    omega
  have hlt : q < 2147483648 := by
    rw [p.maxPossiblePosition_eq] at hbelow
    by_contra hge
    have hq : 2147483648 * p.termLength ≤ q * p.termLength :=
      Int.mul_le_mul_of_nonneg_right (by omega) (Int.le_of_lt hpos)
    omega
  have hterm : i32 (termIdAt p (totalSpace consumed) - p.initialTermId) = q := by
    rw [termIdAt, hplace, (position_split p q lo (by omega)).1, i32_sub_left, add_sub_cancel_left,
      i32_eq (by omega)]
  have hbegin : 0 ≤ q * p.termLength ∧ q * p.termLength ≤ 2147483648 * 1073741824 :=
    ⟨Int.mul_nonneg hnonneg (Int.le_of_lt hpos), Int.mul_le_mul (by omega) hle (Int.le_of_lt hpos) (by decide)⟩
  rw [headerPosition, hlength, ok_bind, hid, ok_bind, hword, halign, computePosition_eq, hterm,
    i64_eq (x := q * p.termLength) (by omega), i64_eq (by omega), hplace]
  exact congrArg Except.ok (by omega)

theorem Noted.observes (p : StreamParams) : Observes p (note p) Noted where
  stable := fun h => h
  deliver := by
    intro buf offset s slots consumed live seen termBegin hrow hnext _ hseen
    have hsnoc : ∀ t, seenFrom 0 (consumed ++ [t]) = seenFrom 0 consumed ++ seenFrom (totalSpace consumed) [t] := by
      intro t
      rw [seenFrom_append, Int.zero_add]
    cases s with
    | padding n | pending n =>
      refine ⟨seen, rfl, ?_⟩
      rw [Noted, hsnoc, hseen]
      exact (List.append_nil _).symm
    | data flags payload =>
      have hin := hrow.data_inside
      have hoffset : termBegin + offset - termBegin = offset := add_sub_cancel_left _ _
      refine ⟨seen ++ [⟨totalSpace consumed + (Slot.data flags payload).space, flags, payload⟩], ?_, ?_⟩
      · simp only [deliver, hoffset, note]
        rw [payload_at hrow.small hrow.offset_nonneg (by omega) hrow.at_head, ok_bind,
          getFlags_at hrow.small hrow.offset_nonneg (by omega) hrow.at_head, ok_bind,
          headerPosition_eq hrow.small hrow.offset_nonneg hrow.aligned.1 hrow.head_inside hrow.at_head hnext]
        rfl
      · rw [Noted, hsnoc, hseen]
        rfl

theorem noting_eq (p : StreamParams) : noting p = polling p (note p) (fun _ => false) id := rfl

theorem Noted.sound (p : StreamParams) : (noting p).Sound p [] Noted := by
  rw [noting_eq]
  exact (Noted.observes p).sound rfl (fun _ => false) id

/-! ## The last fragments of messages -/

/-- The positions of the last fragments of messages. -/
def lastPositions (seen : List Seen) : List Int := (seen.filter Seen.isLast).map Seen.position

theorem lastPositions_append (xs ys : List Seen) : lastPositions (xs ++ ys) = lastPositions xs ++ lastPositions ys := by
  rw [lastPositions, List.filter_append, List.map_append]
  rfl

/-- The fragments of a message end with the one that is last. -/
theorem lastPositions_fragments (hm : 0 < maxPayload) :
    ∀ (fuel : Nat) (flags : UInt8) (message : List UInt8) (a : Int), flags = beginFrag ∨ flags = 0 →
      0 < message.length → message.length ≤ fuel →
      lastPositions (seenFrom a (fragmentSlots maxPayload fuel flags message)) =
        [a + totalSpace (fragmentSlots maxPayload fuel flags message)] := by
  intro fuel
  induction fuel with
  | zero =>
    intro flags message a _ hpos hfuel
    omega
  | succ fuel ih =>
    intro flags message a hflags hpos hfuel
    rw [fragmentSlots, if_pos hpos]
    by_cases hlast : (message.length : Int) ≤ maxPayload
    · have hend : (flags ||| endFrag) &&& endFrag = endFrag := by
        rcases hflags with rfl | rfl
        · decide
        · decide
      rw [if_pos hlast, totalSpace_cons, totalSpace_nil, Int.add_zero]
      simp only [seenFrom, lastPositions, Seen.isLast, hend, List.filter_cons, List.filter_nil, decide_true, if_true,
        List.map_cons, List.map_nil]
    · have hend : flags &&& endFrag ≠ endFrag := by
        rcases hflags with rfl | rfl
        · decide
        · decide
      have hdrop : 0 < (message.drop maxPayload.toNat).length := by
        rw [List.length_drop]
        omega
      have hrest := ih 0 (message.drop maxPayload.toNat)
        (a + (Slot.data flags (message.take maxPayload.toNat)).space) (.inr rfl) hdrop (by rw [List.length_drop]; omega)
      rw [if_neg hlast, totalSpace_cons, ← Int.add_assoc, ← hrest]
      simp only [seenFrom, lastPositions, Seen.isLast, hend, List.filter_cons, decide_false, Bool.false_eq_true, if_false]

/-- **A message has one last fragment**, and it ends where the message does. -/
theorem lastPositions_message (hm : 0 < maxPayload) (message : List UInt8) (a : Int) :
    lastPositions (seenFrom a (messageSlots maxPayload message)) = [a + totalSpace (messageSlots maxPayload message)] := by
  unfold messageSlots
  split
  next =>
    have hend : unfragmented &&& endFrag = endFrag := by decide
    rw [totalSpace_cons, totalSpace_nil, Int.add_zero]
    simp only [seenFrom, lastPositions, Seen.isLast, hend, List.filter_cons, List.filter_nil, decide_true, if_true,
      List.map_cons, List.map_nil]
  next hlong => exact lastPositions_fragments hm _ _ _ a (.inl rfl) (by omega) (Nat.le_refl _)

/-- The positions that calls returned for messages. -/
def messagePositions (records : List Record) : List Int :=
  (records.filter fun r => r.message?.isSome).map Record.position

/-- The last fragments of the log are where the calls said. -/
theorem lastPositions_entries (hm : 0 < maxPayload)
    (h : Positioned maxPayload a entries) :
    lastPositions (seenFrom a (slotsOf maxPayload entries)) = messagePositions (entries.filterMap Entry.record?) := by
  induction entries generalizing a with
  | nil => rfl
  | cons e entries ih =>
    rw [slotsOf_cons, seenFrom_append, lastPositions_append, ih h.2]
    cases e with
    | endOfTerm n => rfl
    | record r =>
      obtain ⟨position, outcome⟩ := r
      have hposition : position = a + totalSpace (Entry.slotsOf maxPayload outcome) := h.1 _ rfl
      cases outcome with
      | message bytes =>
        rw [Entry.slots, Entry.slotsOf, lastPositions_message hm, hposition]
        rfl
      | pending length => rfl
      | aborted length => rfl

/-! ## Partitions -/

/-- What a step stored, where it claimed anything, is in the partition that the image reads at the claimed
positions. -/
def InPartition (p : StreamParams) (log log' : Log) : Prop :=
  ∀ j i, 0 ≤ j → j < 3 → 0 ≤ i → i < p.termLength → log'.terms j i ≠ log.terms j i →
    ∀ x, log.claimedPosition p ≤ x → x < log'.claimedPosition p → Image.indexByPosition p.toLogParams x = .ok j

theorem InPartition.of_claimed_eq
    (h : log'.claimedPosition p = log.claimedPosition p) : InPartition p log log' := by
  intro j i _ _ _ _ _ x lo hi
  omega

/-- Slots written in one term. -/
theorem InPartition.of_wrote {n off a b : Int} {slots : List Slot}
    (h : LogAt p log n off) (hwrote : Wrote p log log' n a slots b)
    (hstop : log'.claimedPosition p ≤ (n + 1) * p.termLength) : InPartition p log log' := by
  have hpos := p.termLength_pos
  have hlt := h.n_lt
  have hlo := h.n_nonneg
  have hnext := Int.add_mul n 1 p.termLength
  intro j i hj hj3 hi hiT hchanged x lo hi'
  rw [h.claimedPosition_eq, producerPosition] at lo
  have hoff := h.off_nonneg
  -- a byte of another partition is at a position of another term, where nothing changed
  have hindex : j = n % 3 := by
    by_contra hne
    obtain ⟨k, hk, hklo, hkhi, hkn⟩ : ∃ k, k % 3 = j ∧ n - 2 ≤ k ∧ k ≤ n ∧ k ≠ n :=
      ⟨n - (n - j) % 3, by omega, by omega, by omega, by omega⟩
    have hbegin : (n - 2) * p.termLength ≤ k * p.termLength :=
      Int.mul_le_mul_of_nonneg_right hklo (Int.le_of_lt hpos)
    have hend : (k + 1) * p.termLength ≤ n * p.termLength :=
      Int.mul_le_mul_of_nonneg_right (by omega) (Int.le_of_lt hpos)
    have hsucc := Int.add_mul k 1 p.termLength
    have hthree := Int.add_mul n 3 p.termLength
    have hsame := hwrote.same (k * p.termLength + i) (by omega) (by omega) (.inl (by have := hwrote.inside.1; omega))
    rw [Log.bytes_at p log' k hi hiT, Log.bytes_at p log k hi hiT, hk] at hsame
    exact hchanged hsame
  obtain ⟨o, rfl⟩ : ∃ o, x = n * p.termLength + o := ⟨x - n * p.termLength, by omega⟩
  have hmax : n * p.termLength + o ≤ p.maxPossiblePosition := by
    have hle : (n + 1) * p.termLength ≤ 2147483648 * p.termLength :=
      Int.mul_le_mul_of_nonneg_right (by omega) (Int.le_of_lt hpos)
    rw [p.maxPossiblePosition_eq]
    omega
  have hbegin := h.begin_bounds
  rw [Image.indexByPosition_eq p.toLogParams (by omega) hmax, (position_split p n (by omega) (by omega)).1, hindex]

/-- The outcomes of a call. -/
theorem InPartition.of_outcome {α : Type} {pub : PublicationState} {n off required : Int}
    {slots : List Slot} {x : Int → α} {r : Published α} (h : LogAt p pub.log n off)
    (hr : r.Rejected pub ∨ r.Accepted p pub n off required slots x ∨ r.Ended p pub n off required) :
    InPartition p pub.log r.publication.log := by
  have hpos := p.termLength_pos
  have hnext := Int.add_mul n 1 p.termLength
  rcases hr with hr | hr | hr
  · exact .of_claimed_eq (by rw [hr.publication])
  · refine .of_wrote h hr.wrote ?_
    rw [hr.logAt.claimedPosition_eq, producerPosition]
    omega
  · refine .of_wrote h hr.wrote ?_
    rcases hr.logAt with ⟨_, hat⟩ | ⟨_, hat⟩
    · rw [hat.claimedPosition_eq, producerPosition]
      omega
    · rw [hat.claimedPosition_eq, producerPosition]
      omega

/-- The stores through a claim leave the tails alone. -/
theorem Claim.setBuffer_claimedPosition (p : StreamParams) (c : Claim) (log : Log) (b : Buffer) :
    (c.setBuffer log b).claimedPosition p = log.claimedPosition p := rfl

theorem Claim.commit_claimedPosition (p : StreamParams) {c : Claim} (h : c.commit log = .ok log') :
    log'.claimedPosition p = log.claimedPosition p := by
  obtain ⟨b, _, hlog⟩ := ok_of_bind h
  rw [← Except.ok.inj hlog, setBuffer_claimedPosition]

theorem Claim.abort_claimedPosition (p : StreamParams) {c : Claim} (h : c.abort log = .ok log') :
    log'.claimedPosition p = log.claimedPosition p := by
  obtain ⟨b, _, hrest⟩ := ok_of_bind h
  obtain ⟨b', _, hlog⟩ := ok_of_bind hrest
  rw [← Except.ok.inj hlog, setBuffer_claimedPosition]

/-- **Every step stores where the image reads.** -/
theorem Inv.inPartition {σ : Type} {Q : List Slot → List Slot → σ → Prop} {consumer : Consumer σ}
    {s t : State σ} {consumed live : List Slot}
    (h : Inv p Q s n off entries consumed live) {a : Action} (ha : a.Admissible p s)
    (hstep : step p consumer s a = .ok t) : InPartition p s.log t.log := by
  cases a with
  | offer buffer offset length supplier =>
    obtain ⟨r, hoffer, ht⟩ := ok_of_bind hstep
    rw [← Except.ok.inj ht]
    exact .of_outcome h.logAt ((offer_cases h.logAt h.room ha.1 ha.2 supplier).of_ok hoffer)
  | offer2 src supplier =>
    obtain ⟨r, hoffer, ht⟩ := ok_of_bind hstep
    rw [← Except.ok.inj ht]
    exact .of_outcome h.logAt ((offer2_cases h.logAt h.room ha.1 ha.2 supplier).of_ok hoffer)
  | tryClaim length =>
    obtain ⟨r, hclaim, ht⟩ := ok_of_bind hstep
    rw [← Except.ok.inj ht]
    exact .of_outcome h.logAt ((tryClaim_cases h.logAt h.room ha.1 ha.2).of_ok hclaim)
  | fill k index bytes =>
    refine .of_claimed_eq ?_
    cases hk : s.claims[k]? with
    | none =>
      simp only [step, hk] at hstep
      rw [← Except.ok.inj hstep]
    | some c =>
      simp only [step, hk] at hstep
      rw [← Except.ok.inj hstep]
      exact Claim.setBuffer_claimedPosition p c.claim s.log _
  | commit k =>
    refine .of_claimed_eq ?_
    cases hk : s.claims[k]? with
    | none =>
      simp only [step, hk] at hstep
      rw [← Except.ok.inj hstep]
    | some c =>
      simp only [step, hk] at hstep
      obtain ⟨log, hcommit, ht⟩ := ok_of_bind hstep
      rw [← Except.ok.inj ht]
      exact Claim.commit_claimedPosition p hcommit
  | abort k =>
    refine .of_claimed_eq ?_
    cases hk : s.claims[k]? with
    | none =>
      simp only [step, hk] at hstep
      rw [← Except.ok.inj hstep]
    | some c =>
      simp only [step, hk] at hstep
      obtain ⟨log, habort, ht⟩ := ok_of_bind hstep
      rw [← Except.ok.inj ht]
      exact Claim.abort_claimedPosition p habort
  | close | driver limit isConnected | clean index lo hi =>
    rw [← Except.ok.inj hstep]
    exact .of_claimed_eq rfl
  | poll fragmentLimit =>
    rw [step] at hstep
    obtain ⟨⟨_, image, state⟩, _, ht⟩ := ok_of_bind hstep
    rw [← Except.ok.inj ht]
    exact .of_claimed_eq rfl

/-- A claim is in the partition that the image reads where its frame begins. -/
theorem Inv.claim_index {σ : Type} {Q : List Slot → List Slot → σ → Prop} {s : State σ} {consumed live : List Slot}
    (h : Inv p Q s n off entries consumed live)
    {c : OpenClaim} (hc : c ∈ s.claims) :
    Image.indexByPosition p.toLogParams (c.position - (Slot.pending c.claim.frameLength).space) =
      .ok c.claim.termIndex := by
  obtain ⟨pre, post, hentries, hindex, hoffset, _⟩ := h.claims c hc
  obtain ⟨before, hlive, hpre, _, _⟩ := h.claim_at hentries hindex hoffset
  have hposition : c.position = totalSpace (slotsOf p.maxPayloadLength pre) + (Slot.pending c.claim.frameLength).space := by
    have hpositioned := h.positioned
    rw [hentries] at hpositioned
    have hrecord := hpositioned.split.2.1 _ rfl
    rw [Entry.slots, Entry.slotsOf, totalSpace_cons, totalSpace_nil, Int.add_zero, Int.zero_add,
      Int.sub_add_cancel] at hrecord
    exact hrecord
  have hnonneg : 0 ≤ totalSpace (slotsOf p.maxPayloadLength pre) := by
    rw [hpre]
    refine totalSpace_nonneg fun t ht => h.slots_pos t ?_
    rw [hlive, ← List.append_assoc]
    exact List.mem_append_left _ ht
  have hspace : 0 < (Slot.pending c.claim.frameLength).space := by
    refine h.slots_pos _ ?_
    rw [hlive]
    exact List.mem_append_right _ (List.mem_append_right _ List.mem_cons_self)
  have hbelow := h.claim_position hc
  rw [hposition, Int.add_sub_cancel, hindex]
  exact Image.indexByPosition_eq p.toLogParams hnonneg (Int.le_trans (by omega) h.producerPosition_le)

/-! ## Agreement -/

/-- What holds of a state in which headers were noted. -/
structure PositionsAgree (p : StreamParams) (s : State (List Seen)) : Prop where
  /-- A poll moves over committed frames. It notes the end of each that is a fragment, and leaves the image at
  the end of the last fragment and of the padding behind it. -/
  polled : ∀ fragmentLimit, ∃ t frames, step p (noting p) s (.poll fragmentLimit) = .ok t ∧ Committed frames ∧
    Laid p.sessionID (s.log.bytes p) s.position frames t.position ∧
    t.consumer = s.consumer ++ seenFrom s.position frames ∧
    ∀ x, (seenFrom s.position frames).getLast? = some x → ∃ before paddings, frames = before ++ paddings ∧
      (∀ y ∈ paddings, ∃ n, y = .padding n) ∧ t.position = x.position + totalSpace paddings
  /-- The last fragments are at the positions that calls returned. -/
  returned : lastPositions s.consumer <+: messagePositions s.records
  /-- A step stores where the image reads. -/
  stored : ∀ (a : Action) t, a.Admissible p s → step p (noting p) s a = .ok t → InPartition p s.log t.log
  claimed : ∀ c ∈ s.claims,
    Image.indexByPosition p.toLogParams (c.position - (Slot.pending c.claim.frameLength).space) = .ok c.claim.termIndex

/-- **Positions agree end to end.** -/
theorem positions_agree (p : StreamParams) {s : State (List Seen)} (hs : (system p (noting p) []).Reachable s) :
    PositionsAgree p s := by
  obtain ⟨n, off, entries, consumed, live, h⟩ := reachable_inv (Noted.sound p) hs
  have hseen : s.consumer = seenFrom 0 consumed := h.consumer
  refine ⟨?_, ?_, fun a t ha hstep => h.inPartition ha hstep, fun c hc => h.claim_index hc⟩
  · intro fragmentLimit
    obtain ⟨t, xs, live', hstep, rfl, h'⟩ := h.polled (Noted.sound p) fragmentLimit
    have hcommitted : Committed xs := h'.committed.right
    have hseen' : t.consumer = seenFrom 0 (consumed ++ xs) := h'.consumer
    have hmoved : t.position = s.position + totalSpace xs := by
      rw [h'.position_eq, h.position_eq, totalSpace_append]
    refine ⟨t, xs, hstep, hcommitted, ?_, ?_, ?_⟩
    · rw [hmoved, h.position_eq]
      exact h.laid.of_append.1
    · rw [hseen', hseen, seenFrom_append, Int.zero_add, h.position_eq]
    · intro x hx
      obtain ⟨before, paddings, rfl, hpaddings, hend⟩ := seenFrom_getLast hcommitted hx
      refine ⟨before, paddings, rfl, hpaddings, ?_⟩
      rw [hmoved, totalSpace_append, ← Int.add_assoc, hend]
  · rw [h.records, ← lastPositions_entries p.maxPayloadLength_pos h.positioned, h.split, seenFrom_append,
      lastPositions_append, hseen]
    exact List.prefix_append _ _

/-- A message in two fragments and one in a single frame, read with one poll. -/
def threeFrames : List Action :=
  [.driver 32768 true, .offer (makeBuffer (List.replicate 40 5)) 0 40 none, .offer (makeBuffer [7]) 0 1 none, .poll 10]

theorem positions_agree_threeFrames :
    ∃ s, (system .smallest (noting .smallest) []).Reachable s ∧ lastPositions s.consumer = [128, 192] ∧
      s.position = 192 ∧ PositionsAgree .smallest s := by
  obtain ⟨s, hs, hq⟩ := exists_reachable_of_calm .smallest (noting .smallest) [] threeFrames
    (fun s => lastPositions s.consumer = [128, 192] ∧ s.position = 192) (by decide +kernel)
  obtain ⟨hlast, hposition⟩ := of_decide_eq_true hq
  exact ⟨s, hs, hlast, hposition, positions_agree .smallest hs⟩

end AeronGo.Stream
