import AeronGo.Laws.Stream.Delivery

/-!
# What a result says, for every length

A caller takes a result of at least zero to mean that the message is in the log. `Request.Sound` is what that comes to
for one call, whatever it returns. It holds in every state of a stream exactly if no length of the call is negative
(`sound_iff`): nothing rejects a negative length, neither in `Offer` nor in `TryClaim`, where the tail is moved by it,
and `Offer2` answers one with zero. Calls that overlap are left out.
-/

namespace AeronGo.Stream

open Machine Util Atomic LogBuffer
open AeronGo.Publication (adminAction publicationClosed)

/-- A call with its arguments. -/
inductive Request where
  | offer (buffer : Buffer) (offset length : Int) (supplier : Option ReservedValueSupplier)
  | offer2 (src : TwoParts) (supplier : Option ReservedValueSupplier)
  | tryClaim (length : Int)

namespace Request

variable (p : StreamParams)

def lengths : Request → List Int
  | .offer _ _ length _ => [length]
  | .offer2 src _ => [src.lengthOne, src.lengthTwo]
  | .tryClaim length => [length]

/-- The lengths are words, and what they say of the sources is there. -/
def Readable : Request → Prop
  | .offer buffer offset length _ => I32 length ∧ Source buffer offset (max length 0)
  | .offer2 src _ => I32 src.lengthOne ∧ I32 src.lengthTwo ∧
      Source src.bufferOne src.offsetOne (max src.lengthOne 0) ∧
      Source src.bufferTwo src.offsetTwo (max src.lengthTwo 0)
  | .tryClaim length => I32 length

/-- What the call returns, and the log it leaves. -/
def run (pub : PublicationState) : Request → Except Stop (Int × Log)
  | .offer buffer offset length supplier =>
    (Stream.offer p pub buffer offset length supplier).map fun r => (r.value, r.publication.log)
  | .offer2 src supplier => (Stream.offer2 p pub src supplier).map fun r => (r.value, r.publication.log)
  | .tryClaim length => (Stream.tryClaim p pub length).map fun r => (r.value, r.publication.log)

/-- The size checks, which stand before the append, do not accept the length. -/
def Oversized : Request → Prop
  | .offer _ _ length _ => p.maxMessageLength < length
  | .offer2 src _ => p.maxMessageLength < src.lengthOne + src.lengthTwo
  | .tryClaim length => p.maxPayloadLength < length

/-- The frames asked for: those of one message of the length of the call, or one claimed frame. -/
def Asks (slots : List Slot) : Request → Prop
  | .offer buffer offset length _ =>
    ((sourceBytes buffer offset length).length : Int) = length ∧
      slots = messageSlots p.maxPayloadLength (sourceBytes buffer offset length)
  | .offer2 src _ =>
    ((twoBytes src).length : Int) = src.lengthOne + src.lengthTwo ∧
      slots = messageSlots p.maxPayloadLength (twoBytes src)
  | .tryClaim length => slots = [.pending (length + 32)]

end Request

variable {p : StreamParams}

/-- The tail of the active term did not decrease, nor did the end of what is claimed. -/
structure TailKept (p : StreamParams) (log log' : Log) : Prop where
  termId : termID (log'.tails (indexByTermCount log.activeTermCount)) =
    termID (log.tails (indexByTermCount log.activeTermCount))
  offset : tailOffset (log.tails (indexByTermCount log.activeTermCount)) ≤
    tailOffset (log'.tails (indexByTermCount log.activeTermCount))
  claimed : log.claimedPosition p ≤ log'.claimedPosition p

/-- Slots were written to the end of the log, and nothing else. -/
def Extended (p : StreamParams) (log log' : Log) (slots : List Slot) (stop : Int) : Prop :=
  Wrote p log log' log.activeTermCount (log.claimedPosition p) slots stop

/-- What a caller may conclude. With a result of at least zero the frames asked for are the new end of the
log; with a negative one there is no new frame but padding; a panic is that of a size check. -/
def Request.Sound (p : StreamParams) (pub : PublicationState) (req : Request) : Prop :=
  match req.run p pub with
  | .ok (value, log) =>
    TailKept p pub.log log ∧
      (0 ≤ value → value = log.claimedPosition p ∧ ∃ slots, req.Asks p slots ∧ Extended p pub.log log slots value) ∧
      (value < 0 → ∃ slots stop, (slots = [] ∨ ∃ n, slots = [.padding n]) ∧ Extended p pub.log log slots stop)
  | .error e => e = .panic ∧ req.Oversized p

/-! ## Lengths that are not negative -/

theorem LogAt.claimedPosition_eq {log : Log} {n off : Int} (h : LogAt p log n off) :
    log.claimedPosition p = producerPosition p n off := by
  rw [Log.claimedPosition, h.count, h.index_eq, h.tailOffset_tail, producerPosition]

section Outcomes

variable {α : Type} {pub : PublicationState} {n off required : Int} {slots : List Slot} {x : Int → α} {r : Published α}

/-- A log that is left as it is. -/
theorem extended_refl {log : Log} (h : LogAt p log n off) : Extended p log log [] (log.claimedPosition p) := by
  have hpos := p.termLength_pos
  have hoff := h.off_nonneg
  have hone := Int.add_mul n 1 p.termLength
  refine ⟨rfl, trivial, ?_, fun _ _ _ _ => rfl⟩
  rw [h.count, h.claimedPosition_eq, producerPosition]
  omega

theorem Published.Accepted.tailKept (hr : r.Accepted p pub n off required slots x) (h : LogAt p pub.log n off)
    (lo : 0 < required) : TailKept p pub.log r.publication.log := by
  have hindex : indexByTermCount pub.log.activeTermCount = n % 3 := by rw [h.count, h.index_eq]
  refine ⟨?_, ?_, ?_⟩
  · rw [hindex, hr.logAt.termID_tail, h.termID_tail]
  · rw [hindex, hr.logAt.tailOffset_tail, h.tailOffset_tail]
    omega
  · rw [hr.logAt.claimedPosition_eq, h.claimedPosition_eq, producerPosition, producerPosition]
    omega

theorem Published.Ended.tailKept (hr : r.Ended p pub n off required) (h : LogAt p pub.log n off)
    (lo : 0 < required) : TailKept p pub.log r.publication.log := by
  have hpos := p.termLength_pos
  have hends := hr.ends
  have hindex : indexByTermCount pub.log.activeTermCount = n % 3 := by rw [h.count, h.index_eq]
  have hone := Int.add_mul n 1 p.termLength
  refine ⟨?_, ?_, ?_⟩
  · rw [hindex, h.termID_tail]
    rcases hr.logAt with ⟨_, hat⟩ | ⟨_, hat⟩
    · have hlast := hat.last
      rw [show (n + 1 + 2) % 3 = n % 3 by omega] at hlast
      rw [hlast]
      congr 1
      omega
    · exact hat.termID_tail
  · rw [hindex, hr.tail, h.tailOffset_tail]
    omega
  · rw [h.claimedPosition_eq, producerPosition]
    rcases hr.logAt with ⟨_, hat⟩ | ⟨_, hat⟩
    · rw [hat.claimedPosition_eq, producerPosition]
      omega
    · rw [hat.claimedPosition_eq, producerPosition]
      omega

/-- **The outcomes of a call are what a caller may conclude.** -/
theorem sound_of_outcome {req : Request} (h : LogAt p pub.log n off) (lo : 0 < required) (hask : req.Asks p slots)
    (hrun : req.run p pub = .ok (r.value, r.publication.log))
    (hr : r.Rejected pub ∨ r.Accepted p pub n off required slots x ∨ r.Ended p pub n off required) :
    req.Sound p pub := by
  have hpos := p.termLength_pos
  have hoff := h.off_nonneg
  have hbegin := h.begin_bounds
  simp only [Request.Sound, hrun]
  rcases hr with hr | hr | hr
  · have hvalue := hr.value
    rw [hr.publication]
    refine ⟨⟨rfl, Int.le_refl _, Int.le_refl _⟩, fun hle => absurd hle (by omega), fun _ => ?_⟩
    exact ⟨[], _, .inl rfl, extended_refl h⟩
  · have hfits := hr.fits
    have hclaimed : pub.log.claimedPosition p = n * p.termLength + off := by
      rw [h.claimedPosition_eq, producerPosition, Int.min_eq_left (by omega)]
    have hstop : r.value = n * p.termLength + (off + required) := by
      rw [hr.value]
      omega
    refine ⟨hr.tailKept h lo, fun _ => ⟨?_, slots, hask, ?_⟩, fun hneg => ?_⟩
    · rw [hstop, hr.logAt.claimedPosition_eq, producerPosition, Int.min_eq_left hfits]
    · rw [Extended, h.count, hclaimed, hstop]
      exact hr.wrote
    · rw [hstop] at hneg
      omega
  · have hvalue := hr.value
    refine ⟨hr.tailKept h lo, fun hle => absurd hle (by omega), fun _ => ?_⟩
    refine ⟨endSlots p.termLength off, (n + 1) * p.termLength, ?_, ?_⟩
    · unfold endSlots
      split
      next => exact .inr ⟨_, rfl⟩
      next => exact .inl rfl
    · rw [Extended, h.count, h.claimedPosition_eq]
      exact hr.wrote

end Outcomes

section Calls

variable {pub : PublicationState} {n off : Int} (h : LogAt p pub.log n off)

include h

/-- An append that panics at once is not reached, or panics. -/
theorem publish_panics {α : Type} (checksTerm : Bool) (length : Int) :
    (∃ r, publish p pub checksTerm length (fun _ => (.error .panic : Except Stop (Appended α))) = .ok r ∧ r.Rejected pub) ∨
      publish p pub checksTerm length (fun _ => (.error .panic : Except Stop (Appended α))) = .error .panic := by
  rw [publish_eq h]
  split
  next => exact .inl ⟨_, rfl, backPressureStatus_neg _ _ _ _, rfl, rfl⟩
  next => exact .inr rfl

theorem offer_oversized (buffer : Buffer) (offset : Int) {length : Int} (supplier : Option ReservedValueSupplier)
    (hlong : p.maxOffer < length) :
    (∃ r, offer p pub buffer offset length supplier = .ok r ∧ r.Rejected pub) ∨
      offer p pub buffer offset length supplier = .error .panic := by
  unfold StreamParams.maxOffer at hlong
  unfold offer
  split
  next => exact .inl ⟨_, rfl, show publicationClosed < 0 by decide, rfl, rfl⟩
  next =>
    simp only [if_neg (show ¬length ≤ p.maxPayloadLength by omega), if_pos (show p.maxMessageLength < length by omega)]
    exact publish_panics h true length

theorem offer2_oversized {src : TwoParts} (supplier : Option ReservedValueSupplier) (hone : 0 ≤ src.lengthOne)
    (htwo : 0 ≤ src.lengthTwo) (hlong : p.maxOffer < src.lengthOne + src.lengthTwo)
    (hword : src.lengthOne + src.lengthTwo < 4294967296) :
    (∃ r, offer2 p pub src supplier = .ok r ∧ r.Rejected pub) ∨ offer2 p pub src supplier = .error .panic := by
  have hpayload := p.maxPayloadLength_pos
  unfold StreamParams.maxOffer at hlong
  unfold offer2
  rw [if_neg (Int.not_lt.mpr hone), if_neg (Int.not_lt.mpr htwo)]
  by_cases hover : src.lengthOne + src.lengthTwo < 2147483648
  · have hsum : i32 (src.lengthOne + src.lengthTwo) = src.lengthOne + src.lengthTwo := i32_eq (by omega)
    rw [hsum]
    dsimp only
    rw [if_neg (show ¬src.lengthOne + src.lengthTwo < 0 by omega)]
    split
    next => exact .inl ⟨_, rfl, show publicationClosed < 0 by decide, rfl, rfl⟩
    next =>
      simp only [if_neg (show ¬src.lengthOne + src.lengthTwo ≤ p.maxPayloadLength by omega),
        if_pos (show p.maxMessageLength < src.lengthOne + src.lengthTwo by omega)]
      exact publish_panics h true _
  · -- the sum of two words is negative
    have hsum : i32 (src.lengthOne + src.lengthTwo) < 0 := by
      unfold i32
      omega
    dsimp only
    rw [if_pos hsum]
    exact .inr rfl

variable (hroom : pub.limit ≤ producerPosition p n off + p.termLength / 2) (hmtu : 2 * p.mtu ≤ p.termLength)

include hroom hmtu

/-- **Calls whose lengths are not negative are sound.** -/
theorem sound_of_nonneg {req : Request} (hreq : req.Readable) (hlo : ∀ l ∈ req.lengths, 0 ≤ l) : req.Sound p pub := by
  -- a rejected or panicking oversized call
  have hover : ∀ {α : Type} (call : Except Stop (Published α)), req.Oversized p →
      req.run p pub = call.map (fun r => (r.value, r.publication.log)) →
      ((∃ r, call = .ok r ∧ r.Rejected pub) ∨ call = .error .panic) → req.Sound p pub := by
    intro α call hlong hrun hcall
    rcases hcall with ⟨r, rfl, hr⟩ | rfl
    · have hvalue := hr.value
      have hlog : r.publication.log = pub.log := congrArg PublicationState.log hr.publication
      simp only [Request.Sound, hrun, Except.map, hlog]
      exact ⟨⟨rfl, Int.le_refl _, Int.le_refl _⟩, fun hle => absurd hle (by omega),
        fun _ => ⟨[], _, .inl rfl, extended_refl h⟩⟩
    · simp only [Request.Sound, hrun, Except.map]
      exact ⟨trivial, hlong⟩
  cases req with
  | offer buffer offset length supplier =>
    have lo : 0 ≤ length := hlo length List.mem_cons_self
    have hsrc : Source buffer offset length := by
      have hmax := hreq.2
      rwa [Int.max_eq_left lo] at hmax
    by_cases hlong : p.maxOffer < length
    · exact hover _ (Int.lt_of_le_of_lt (Int.le_max_left _ _) hlong) rfl (offer_oversized h buffer offset supplier hlong)
    · have hrequires := requires_message p lo (Int.not_lt.mp hlong)
      rcases offer_cases h hroom hsrc (Int.not_lt.mp hlong) supplier with ⟨r, hcall, hr⟩ | ⟨_, hhalf⟩
      · refine sound_of_outcome h hrequires.pos ⟨hsrc.length_bytes, rfl⟩ ?_ hr
        rw [Request.run, hcall]
        rfl
      · exact absurd (hrequires.half hhalf) (Int.not_lt.mpr hmtu)
  | offer2 src supplier =>
    have hone : 0 ≤ src.lengthOne := hlo src.lengthOne List.mem_cons_self
    have htwo : 0 ≤ src.lengthTwo := hlo src.lengthTwo (List.mem_cons_of_mem _ List.mem_cons_self)
    obtain ⟨hwordOne, hwordTwo, hsrcOne, hsrcTwo⟩ := hreq
    rw [Int.max_eq_left hone] at hsrcOne
    rw [Int.max_eq_left htwo] at hsrcTwo
    have hsrc : TwoSources src := ⟨hsrcOne, hsrcTwo⟩
    by_cases hlong : p.maxOffer < src.lengthOne + src.lengthTwo
    · have hle := hwordOne.2
      have hle' := hwordTwo.2
      exact hover _ (Int.lt_of_le_of_lt (Int.le_max_left _ _) hlong) rfl
        (offer2_oversized h supplier hone htwo hlong (by omega))
    · have hrequires := requires_message p (Int.add_nonneg hone htwo) (Int.not_lt.mp hlong)
      rcases offer2_cases h hroom hsrc (Int.not_lt.mp hlong) supplier with ⟨r, hcall, hr⟩ | ⟨_, hhalf⟩
      · refine sound_of_outcome h hrequires.pos ⟨hsrc.length_bytes, rfl⟩ ?_ hr
        rw [Request.run, hcall]
        rfl
      · exact absurd (hrequires.half hhalf) (Int.not_lt.mpr hmtu)
  | tryClaim length =>
    have lo : 0 ≤ length := hlo length List.mem_cons_self
    by_cases hlong : p.maxPayloadLength < length
    · refine hover (tryClaim p pub length) hlong rfl ?_
      unfold tryClaim
      split
      next => exact .inl ⟨_, rfl, show publicationClosed < 0 by decide, rfl, rfl⟩
      next => exact .inr rfl
    · have hrequires := requires_frame p lo (Int.not_lt.mp hlong)
      rcases tryClaim_cases h hroom lo (Int.not_lt.mp hlong) with ⟨r, hcall, hr⟩ | ⟨_, hhalf⟩
      · refine sound_of_outcome h hrequires.pos rfl ?_ hr
        rw [Request.run, hcall]
        rfl
      · exact absurd (hrequires.half hhalf) (Int.not_lt.mpr hmtu)

end Calls

/-! ## Negative lengths -/

/-- The offset of a tail that was moved back, or its term. -/
theorem tail_moved_back {termId required : Int} (hid : I32 termId) (lo : -2147483648 ≤ required) (hi : required ≤ -32) :
    ¬(termID (i64 (rawTail termId 32 + required)) = termId ∧
      32 ≤ tailOffset (i64 (rawTail termId 32 + required))) := by
  obtain ⟨hidLo, hidHi⟩ := hid
  rw [tailOffset_eq]
  unfold termID i64 i32 rawTail
  omega

/-- A rotation from the first term leaves its tail. -/
theorem rotateLog_first (log : Log) (termId : Int) :
    ∃ log', log.rotateLog 0 termId = .ok log' ∧ log'.tails 0 = log.tails 0 := by
  have hnext : indexByTermCount (i32 (0 + 1)) = 1 := rfl
  obtain ⟨next, hnextLog, htails⟩ : ∃ next, next = (if i32 (i32 (termId + 1) - 3) ≠ termID (log.tails 1) then log
      else { log with tails := fun j => if j = 1 then rawTailOf (i32 (termId + 1)) else log.tails j }) ∧
      next.tails 0 = log.tails 0 := by
    refine ⟨_, rfl, ?_⟩
    split
    next => rfl
    next => rfl
  simp only [Log.rotateLog, hnext, show ¬(1 : Int) < 0 by decide, if_false, ← hnextLog]
  split
  next => exact ⟨_, rfl, htails⟩
  next => exact ⟨_, rfl, htails⟩

/-- The new position behind the first frame, after a move of the tail by no more than a frame. -/
theorem newPosition_first (p : StreamParams) (log : Log) (termId : Int) {required : Int} (lo : -2147483648 ≤ required)
    (hi : required ≤ 32) :
    ∃ value log', newPosition p log 0 32 termId 32 (32 + required) = .ok (value, log') ∧ (0 ≤ required → 0 ≤ value) ∧
      log'.tails 0 = log.tails 0 := by
  have hge := p.termLength_ge
  have hmax := p.maxPossiblePosition_eq
  unfold newPosition
  by_cases hpos : 0 < 32 + required
  · rw [if_pos hpos]
    refine ⟨_, log, rfl, fun hnonneg => ?_, rfl⟩
    unfold i64
    omega
  · have hsum : i64 (32 + 32) = 64 := rfl
    obtain ⟨log', hrotate, htails⟩ := rotateLog_first log termId
    rw [if_neg hpos, hsum, if_neg (by omega), hrotate]
    exact ⟨adminAction, log', rfl, fun hnonneg => absurd hnonneg (by omega), htails⟩

section Negative

variable {pub : PublicationState} (h : LogAt p pub.log 0 32) (hlimit : 32 < pub.limit)

include h hlimit

/-- An append of a negative message behind a first frame goes through, whatever is stored: it returns a
position, or it moves the tail back. -/
theorem publish_negative {α : Type} {required : Int} (lo : -2147483648 ≤ required) (hi : required ≤ 32)
    (run : Appender → Except Stop (Appended α)) {store : Buffer → Int → Int → Except Stop (Buffer × α)}
    (hrun : run (pub.log.appender p 0) = (pub.log.appender p 0).append required store) {b : Buffer} {x : α}
    (hstore : store (pub.log.termBuffer p 0) 32 (i32 p.initialTermId) = .ok (b, x)) (checksTerm : Bool) (length : Int) :
    ∃ r, publish p pub checksTerm length run = .ok r ∧ (0 ≤ required → 0 ≤ r.value) ∧
      r.publication.log.tails 0 = i64 (rawTail (i32 p.initialTermId) 32 + required) := by
  have hge := p.termLength_ge
  have htail : pub.log.tails 0 = rawTail (i32 p.initialTermId) 32 := by
    have := h.tail
    rwa [Int.add_zero] at this
  have hid : termID (pub.log.tails 0) = i32 p.initialTermId := by
    have := h.termID_tail
    rwa [Int.add_zero] at this
  have hoff : tailOffset (pub.log.tails 0) = 32 := h.tailOffset_tail
  have hsum : i64 (32 + required) = 32 + required := i64_eq (by omega)
  have hmax := p.maxPossiblePosition_eq
  -- the append itself
  have happend : run (pub.log.appender p 0) = .ok ⟨⟨b, i64 (rawTail (i32 p.initialTermId) 32 + required),
      ⟨p.sessionID, p.streamID⟩⟩, 32 + required, i32 p.initialTermId, some x⟩ := by
    rw [hrun]
    simp only [Appender.append, Log.appender, hid, hoff, hsum]
    rw [if_neg (show ¬(pub.log.termBuffer p 0).length < 32 + required by show ¬p.termLength < _; omega),
      show i32 32 = 32 from rfl, hstore, htail]
    rfl
  have hposition : (0 : Int) * p.termLength + 32 = 32 := by omega
  rw [publish_eq h, hposition, if_neg (Int.not_le.mpr hlimit)]
  show ∃ r, (run (pub.log.appender p 0) >>= _) = .ok r ∧ _
  rw [happend, ok_bind]
  obtain ⟨value, log, hnew, hvalue, htails⟩ := newPosition_first p (pub.log.setAppender 0
    ⟨b, i64 (rawTail (i32 p.initialTermId) 32 + required), ⟨p.sessionID, p.streamID⟩⟩) (i32 p.initialTermId) lo hi
  refine ⟨⟨value, some (0, x), { pub with log := log }⟩, ?_, hvalue, htails⟩
  show (newPosition p (pub.log.setAppender 0 _) 0 32 (i32 p.initialTermId) 32 (32 + required) >>= _) = _
  rw [hnew]
  rfl

omit hlimit in
/-- A call that gets there, and asks for what cannot be in the log, is not sound. -/
theorem not_sound_of_negative {α : Type} {req : Request} (r : Published α) {required : Int}
    (lo : -2147483648 ≤ required) (haligned : required % 32 = 0)
    (hrun : req.run p pub = .ok (r.value, r.publication.log)) (hvalue : 0 ≤ required → 0 ≤ r.value)
    (htail : r.publication.log.tails 0 = i64 (rawTail (i32 p.initialTermId) 32 + required))
    (hask : ∀ slots, req.Asks p slots → ¬Extended p pub.log r.publication.log slots r.value) : ¬req.Sound p pub := by
  intro hsound
  simp only [Request.Sound, hrun] at hsound
  obtain ⟨hkept, hpublished, _⟩ := hsound
  by_cases hneg : 0 ≤ required
  · obtain ⟨_, slots, hslots, hextended⟩ := hpublished (hvalue hneg)
    exact hask slots hslots hextended
  · have hindex : indexByTermCount pub.log.activeTermCount = 0 := by
      rw [h.count]
      rfl
    have hid := hkept.termId
    have hoffset := hkept.offset
    have hid' := h.termID_tail
    have hoffset' := h.tailOffset_tail
    simp only [Int.add_zero, Int.zero_emod] at hid' hoffset'
    rw [hindex, htail, hid'] at hid
    rw [hindex, htail, hoffset'] at hoffset
    exact tail_moved_back (i32_range _) lo (by omega) ⟨hid, hoffset⟩

variable (hopen : pub.isClosed = false) {length : Int} (hword : I32 length) (hneg : length < 0)

include hopen hword hneg

/-- What an offer of a negative length stores does not stop it. -/
theorem not_sound_offer {buffer : Buffer} {offset : Int} (hsrc : Source buffer offset 0)
    (supplier : Option ReservedValueSupplier) : ¬(Request.offer buffer offset length supplier).Sound p pub := by
  have hge := p.termLength_ge
  have hle := p.termLength_le
  have hlo := hword.1
  have hpayload := p.maxPayloadLength_pos
  have hs : ∀ m, Addressable ⟨m, p.termLength⟩ := fun _ => hle
  have hsingle : length ≤ p.maxPayloadLength := by omega
  obtain ⟨sup, hsup⟩ : ∃ sup, sup = supplier.getD defaultReservedValueSupplier := ⟨_, rfl⟩
  obtain ⟨b, hstore⟩ : ∃ b, Appender.storeMessage ⟨p.sessionID, p.streamID⟩ (length + 32) buffer offset length (some sup)
      (pub.log.termBuffer p 0) 32 (i32 p.initialTermId) = .ok (b, ()) := by
    have hoffset := hsrc.offset_nonneg
    have hin := hsrc.inside
    rw [Log.termBuffer, Appender.storeMessage, HeaderWriter.write_ok _ _ (hs _) (by decide) (by show _ ≤ p.termLength; omega) (by omega)
      (by omega), ok_bind, show i32 (32 + headerLength) = 64 from rfl, Buffer.putBytes_negative (hs _) hsrc.length_lt
      (by decide) (by show _ ≤ p.termLength; omega) hoffset (by omega) hlo hneg, ok_bind, Appender.supplyReserved,
      putReservedValue_ok (hs _) (by decide) (by show _ ≤ p.termLength; omega), ok_bind,
      setFrameLength_ok (hs _) (by decide) (by show _ ≤ p.termLength; omega)]
    exact ⟨_, rfl⟩
  have hrun := appendUnfragmentedMessage_eq (pub.log.appender p 0) hlo (by omega) buffer offset (some sup)
  obtain ⟨r, hr, hvalue, htail⟩ := publish_negative h hlimit (by omega) (by omega)
    (fun a => if length ≤ p.maxPayloadLength then a.appendUnfragmentedMessage buffer offset length (some sup)
      else if p.maxMessageLength < length then .error .panic
      else a.appendFragmentedMessage buffer offset length p.maxPayloadLength sup)
    ((if_pos hsingle).trans hrun) hstore true length
  refine not_sound_of_negative h r (by omega) (by omega) ?_ hvalue htail ?_
  · rw [Request.run, offer, if_neg (by rw [hopen]; exact Bool.false_ne_true), ← hsup]
    dsimp only
    rw [hr]
    rfl
  · rintro slots ⟨hlength, _⟩
    omega

theorem not_sound_tryClaim : ¬(Request.tryClaim length).Sound p pub := by
  have hge := p.termLength_ge
  have hle := p.termLength_le
  have hlo := hword.1
  have hpayload := p.maxPayloadLength_pos
  have hs : ∀ m, Addressable ⟨m, p.termLength⟩ := fun _ => hle
  obtain ⟨b, hstore⟩ : ∃ b, Appender.storeClaim ⟨p.sessionID, p.streamID⟩ (length + 32) (pub.log.termBuffer p 0) 32
      (i32 p.initialTermId) = .ok (b, 32, length + 32) := by
    rw [Log.termBuffer, Appender.storeClaim, HeaderWriter.write_ok _ _ (hs _) (by decide) (by show _ ≤ p.termLength; omega) (by omega)
      (by omega), ok_bind, boundsCheck_ok (by decide) (by omega) (by show _ ≤ p.termLength; omega) (hs _).lt]
    exact ⟨_, rfl⟩
  obtain ⟨r, hr, hvalue, htail⟩ := publish_negative h hlimit (by omega) (by omega) (Appender.claim · length)
    (claim_eq (pub.log.appender p 0) hlo (by omega)) hstore false length
  refine not_sound_of_negative h r (by omega) (by omega) ?_ hvalue htail ?_
  · rw [Request.run, tryClaim, if_neg (by rw [hopen]; exact Bool.false_ne_true),
      if_neg (show ¬p.maxPayloadLength < length by omega), hr]
    rfl
  · rintro slots rfl hextended
    have hframe := hextended.laid.1.1
    omega

end Negative

/-- Two steps lead to a log with one frame, and room behind it. -/
theorem exists_first_frame (p : StreamParams) :
    ∃ s, (system p (assembling p) (fun _ => none, [])).Reachable s ∧ LogAt p s.log 0 32 ∧ 32 < s.publication.limit ∧
      s.publication.isClosed = false := by
  have hge := p.termLength_ge
  have hpayload := p.maxPayloadLength_pos
  obtain ⟨s, hs⟩ : ∃ s : State (Builders × List (List UInt8)), s = { State.initial p (fun _ => none, []) with
    publication := ⟨Log.initial p, p.termLength / 2, true, false⟩ } := ⟨_, rfl⟩
  have hreachable : (system p (assembling p) (fun _ => none, [])).Reachable s := by
    refine .step (.driver (p.termLength / 2) true) (.start rfl) ⟨trivial, ?_, ?_⟩
    · rw [hs]
      rfl
    · show p.termLength / 2 ≤ 0 + p.termLength / 2
      omega
  have hat : LogAt p s.publication.log 0 0 := by
    rw [hs]
    exact logAt_initial p
  have hlimit : s.publication.limit = p.termLength / 2 := by rw [hs]
  have hopen : s.publication.isClosed = false := by rw [hs]
  obtain ⟨r, hr, haccepted⟩ := publish_fits hat (claim_appends p.sessionID_range (Int.le_refl 0) (by decide))
    (by decide) (by decide) (by omega) (by omega) false 0
  have hclaim : tryClaim p s.publication 0 = .ok r := by
    rw [tryClaim, if_neg (by rw [hopen]; exact Bool.false_ne_true), if_neg (by omega), hr]
  have hlogAt : LogAt p r.publication.log 0 32 := haccepted.logAt
  refine ⟨{ s.returned r (.pending 0) with claims := s.claims ++ newClaims r }, ?_, hlogAt, ?_, ?_⟩
  · refine .step (.tryClaim 0) hreachable ⟨⟨Int.le_refl 0, Int.le_of_lt hpayload⟩, ?_, ?_⟩
    · rw [step, hclaim]
      rfl
    · -- the term is not full
      intro hfull
      have hindex : indexByTermCount s.log.activeTermCount = 0 := by
        rw [hs]
        rfl
      have hoffset : tailOffset (r.publication.log.tails 0) = 32 := hlogAt.tailOffset_tail
      rw [hindex] at hfull
      have hle : p.termLength ≤ tailOffset (r.publication.log.tails 0) := hfull
      omega
  · show 32 < r.publication.limit
    rw [haccepted.publication, hlimit]
    omega
  · show r.publication.isClosed = false
    rw [haccepted.publication, hopen]

/-- `Offer2` answers a negative part with zero. -/
theorem not_sound_offer2 {pub : PublicationState} (h : LogAt p pub.log 0 32) {src : TwoParts}
    (supplier : Option ReservedValueSupplier) (hneg : src.lengthOne < 0 ∨ src.lengthTwo < 0) :
    ¬(Request.offer2 src supplier).Sound p pub := by
  have hge := p.termLength_ge
  have hcall : offer2 p pub src supplier = .ok ⟨0, none, pub⟩ := by
    unfold offer2
    by_cases hone : src.lengthOne < 0
    · rw [if_pos hone]
    · rw [if_neg hone, if_pos (hneg.resolve_left hone)]
  intro hsound
  simp only [Request.Sound, Request.run, hcall, Except.map] at hsound
  obtain ⟨hposition, _⟩ := hsound.2.1 (Int.le_refl 0)
  rw [h.claimedPosition_eq, producerPosition] at hposition
  omega

/-- **A result means what it says exactly if no length is negative.** For every call with sources that
are there, on a log whose terms hold two frames: in all states that a publisher can bring a log to it is
sound, if and only if none of its lengths is negative. -/
theorem sound_iff (p : StreamParams) (hmtu : 2 * p.mtu ≤ p.termLength) {req : Request} (hreq : req.Readable) :
    (∀ s, (system p (assembling p) (fun _ => none, [])).Reachable s → req.Sound p s.publication) ↔
      ∀ l ∈ req.lengths, 0 ≤ l := by
  constructor
  · intro hsound
    obtain ⟨s, hs, hat, hlimit, hopen⟩ := exists_first_frame p
    have hthis := hsound s hs
    cases req with
    | offer buffer offset length supplier =>
      intro l hl
      rw [List.mem_singleton.mp hl]
      by_contra hneg
      obtain ⟨hword, hsrc⟩ := hreq
      rw [Int.max_eq_right (by omega)] at hsrc
      exact not_sound_offer hat hlimit hopen hword (by omega) hsrc supplier hthis
    | offer2 src supplier =>
      intro l hl
      by_contra hneg
      refine not_sound_offer2 hat supplier ?_ hthis
      rcases List.mem_pair.mp hl with rfl | rfl
      · exact .inl (by omega)
      · exact .inr (by omega)
    | tryClaim length =>
      intro l hl
      rw [List.mem_singleton.mp hl]
      by_contra hneg
      exact not_sound_tryClaim hat hlimit hopen hreq (by omega) hthis
  · intro hlo s hs
    obtain ⟨n, off, entries, consumed, live, h⟩ := reachable_inv (Assembled.sound p) hs
    exact sound_of_nonneg h.logAt h.room hmtu hreq hlo

theorem sound_iff_offered :
    (∀ s, (system .smallest (assembling .smallest) (fun _ => none, [])).Reachable s →
      (Request.offer (makeBuffer [1, 2, 3]) 0 3 none).Sound .smallest s.publication) ∧
    ¬∀ s, (system .smallest (assembling .smallest) (fun _ => none, [])).Reachable s →
      (Request.offer (makeBuffer [1, 2, 3]) 0 (-3) none).Sound .smallest s.publication := by
  constructor
  · exact (@sound_iff .smallest (by decide) (.offer (makeBuffer [1, 2, 3]) 0 3 none)
      ⟨by decide, by decide, by decide, by decide, by decide⟩).mpr (by decide)
  · intro hall
    exact absurd ((@sound_iff .smallest (by decide) (.offer (makeBuffer [1, 2, 3]) 0 (-3) none)
      ⟨by decide, by decide, by decide, by decide, by decide⟩).mp hall) (by decide)

/-- What a call returns, the offset of the first tail after it, and the length of the frame at 64. -/
def Request.outcome (pub : PublicationState) (req : Request) : Option (Int × Int × Int) :=
  (req.run .smallest pub).toOption.map fun r => (r.1, tailOffset (r.2.tails 0), getInt32 (r.2.terms 0) 64)

/-- Behind a message in a frame of 64 bytes: `Offer2` with a negative part returns zero. `Offer` of -5 bytes
returns the position behind a frame of 27 bytes, which is shorter than its header; of -40 bytes, the
position it is at; and of -70 bytes, a position that the tail was moved back to. So does `TryClaim`. -/
theorem negative_lengths_accepted :
    ∃ s, (system .smallest (assembling .smallest) (fun _ => none, [])).Reachable s ∧
      tailOffset (s.log.tails 0) = 64 ∧
      [Request.offer2 ⟨makeBuffer [1, 2, 3], 0, -1, makeBuffer [1, 2, 3], 0, 3⟩ none,
        .offer (makeBuffer [1, 2, 3]) 0 (-5) none, .offer (makeBuffer [1, 2, 3]) 0 (-40) none,
        .offer (makeBuffer [1, 2, 3]) 0 (-70) none, .tryClaim (-70)].map (Request.outcome s.publication) =
      [some (0, 64, 0), some (96, 96, 27), some (64, 64, -8), some (32, 32, -38), some (32, 32, 38)] := by
  obtain ⟨s, hs, hq⟩ := exists_reachable_of_calm .smallest (assembling .smallest) (fun _ => none, [])
    [.driver 32768 true, .offer (makeBuffer [9]) 0 1 none]
    (fun s => tailOffset (s.log.tails 0) = 64 ∧
      [Request.offer2 ⟨makeBuffer [1, 2, 3], 0, -1, makeBuffer [1, 2, 3], 0, 3⟩ none,
        .offer (makeBuffer [1, 2, 3]) 0 (-5) none, .offer (makeBuffer [1, 2, 3]) 0 (-40) none,
        .offer (makeBuffer [1, 2, 3]) 0 (-70) none, .tryClaim (-70)].map (Request.outcome s.publication) =
      [some (0, 64, 0), some (96, 96, 27), some (64, 64, -8), some (32, 32, -38), some (32, 32, 38)])
    (by decide +kernel)
  exact ⟨s, hs, of_decide_eq_true hq⟩

end AeronGo.Stream
