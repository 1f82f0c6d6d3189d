import AeronGo.Laws.Stream.Delivery

/-!
# The three ways to publish

`Offer`, `Offer2` and `TryClaim` with a committed claim differ in how the bytes of a message get into the log, not in
which bytes: a single frame is `storePayload` on either of the first two (`storeMessage_eq`, `storeMessage2_eq`),
fragments are the same fold whichever way they are copied (`storeFragments_ok`), and what a claim leaves out is zero
in a log that is cleaned ahead. So the calls return the same value and leave the same log (`paths_agree`). They are
compared from one state; calls of other publishers in between are left out.
-/

namespace AeronGo.LogBuffer

open Machine Util Atomic

/-! ## Appends of the same bytes -/

section Same

variable {a : Appender} {termId offset : Int} (h : AppenderAt a termId offset)

include h

/-- A store matters only where it has room. -/
theorem append_congr {α : Type} {required : Int} (lo : 0 < required) (hi : required < 2147483648)
    {store store' : Buffer → Int → Int → Except Stop (Buffer × α)}
    (hsame : offset + required ≤ a.termBuffer.length →
      store a.termBuffer offset termId = store' a.termBuffer offset termId) :
    a.append required store = a.append required store' := by
  obtain ⟨hid, hofs, _, hsum, hword⟩ := h.tail lo hi
  simp only [Appender.append, hid, hofs, hsum, hword]
  split
  next => rfl
  next hfits => rw [hsame (Int.not_lt.mp hfits)]

variable {src : TwoParts} {buffer : Buffer} {srcOffset length : Int} (hsrc : Source buffer srcOffset length)
  (htwo : TwoSources src) (hbytes : twoBytes src = sourceBytes buffer srcOffset length)

omit h in
include hsrc htwo hbytes in
theorem lengthTwo_add : src.lengthOne + src.lengthTwo = length := by
  rw [← htwo.length_bytes, hbytes, hsrc.length_bytes]

include hsrc htwo hbytes

theorem appendUnfragmentedMessage2_agrees (hi : length ≤ 2147483584) (supplier : Option ReservedValueSupplier) :
    a.appendUnfragmentedMessage2 src supplier = a.appendUnfragmentedMessage buffer srcOffset length supplier := by
  have hlength := lengthTwo_add hsrc htwo hbytes
  have lo := hsrc.length_nonneg
  rw [appendUnfragmentedMessage2_eq a (by omega) hi src hlength, appendUnfragmentedMessage_eq a (by omega) hi]
  refine append_congr h (by omega) (by omega) fun hfits => ?_
  have htwoStore := storeMessage2_eq a.headerWriter htwo supplier termId h.addressable h.offset_nonneg
    (by rw [hlength]; omega)
  rw [hlength] at htwoStore
  rw [htwoStore, storeMessage_eq a.headerWriter hsrc supplier termId h.addressable h.offset_nonneg (by omega), hbytes]

theorem appendFragmentedMessage2_agrees {maxPayload : Int} (hm : 32 ≤ maxPayload) (halign : maxPayload % 32 = 0)
    (hmax : maxPayload < 2147483616) (hpos : 0 < length) (hi : length ≤ 1073741000)
    (supplier : ReservedValueSupplier) :
    a.appendFragmentedMessage2 src maxPayload supplier =
      a.appendFragmentedMessage buffer srcOffset length maxPayload supplier := by
  have hlength := lengthTwo_add hsrc htwo hbytes
  have hone := htwo.one.length_nonneg
  have hword : i32 length = length := i32_eq (by omega)
  have hrequired := messageSpace_bounds hm (Int.le_of_lt hpos)
  have hplace : TwoPlaces src 0 (0, 0) := by
    unfold TwoPlaces
    rw [Int.min_eq_left hone]
    rfl
  simp only [Appender.appendFragmentedMessage2, Appender.appendFragmentedMessage, hlength, hword,
    fragmentedLength_eq hm hmax (Int.le_of_lt hpos) hi]
  refine append_congr h (by omega) (by omega) fun hfits => ?_
  have hcopyTwo := copyTwo_copies htwo
  rw [hbytes] at hcopyTwo
  rw [← hsrc.length_bytes] at hfits
  obtain ⟨m, hm', hrun, _⟩ := storeFragments_ok a.headerWriter h.session supplier (copyOne_copies hsrc) hm halign
    (by rw [hsrc.length_bytes]; omega) () trivial termId h.addressable h.offset_nonneg hfits
  obtain ⟨m₂, hm₂, hrun₂, _⟩ := storeFragments_ok a.headerWriter h.session supplier hcopyTwo hm halign
    (by rw [hsrc.length_bytes]; omega) (0, 0) hplace termId h.addressable h.offset_nonneg hfits
  rw [hsrc.length_bytes] at hrun hrun₂
  rw [hrun, hrun₂, hm', hm₂]

end Same

end AeronGo.LogBuffer

namespace AeronGo.Stream

open Machine Util Atomic LogBuffer

variable {p : StreamParams}

/-! ## Offers of the same bytes -/

/-- **Offer2 of the parts of a message is Offer of the message.** -/
theorem offer2_eq_offer {pub : PublicationState} {n off : Int} (h : LogAt p pub.log n off)
    (hroom : pub.limit ≤ producerPosition p n off + p.termLength / 2) {buffer : Buffer} {offset length : Int} (hsrc : Source buffer offset length) {src : TwoParts} (htwo : TwoSources src)
    (hbytes : twoBytes src = sourceBytes buffer offset length) (supplier : Option ReservedValueSupplier) :
    offer2 p pub src supplier = offer p pub buffer offset length supplier := by
  have hle := p.termLength_le
  have hlength := lengthTwo_add hsrc htwo hbytes
  have lo := hsrc.length_nonneg
  have hin := hsrc.inside
  have hoffset := hsrc.offset_nonneg
  have hsmall := hsrc.length_lt
  have hword : i32 length = length := i32_eq (by omega)
  unfold offer2 offer
  rw [if_neg (Int.not_lt.mpr htwo.one.length_nonneg), if_neg (Int.not_lt.mpr htwo.two.length_nonneg), hlength, hword]
  dsimp only
  rw [if_neg (Int.not_lt.mpr lo), publish_eq h, publish_eq h]
  by_cases hlimit : pub.limit ≤ n * p.termLength + off
  · rw [if_pos hlimit, if_pos hlimit]
  have hat := h.appenderAt (LogAt.off_lt_word p hroom (Int.not_le.mp hlimit))
  by_cases hsingle : length ≤ p.maxPayloadLength
  · simp only [if_pos hsingle, appendUnfragmentedMessage2_agrees hat hsrc htwo hbytes (p.frame_word hsingle)]
  · by_cases hlong : p.maxMessageLength < length
    · simp only [if_neg hsingle, if_pos hlong]
    · have hmax := p.maxMessageLength_eq
      have hge := p.maxPayloadLength_ge
      simp only [if_neg hsingle, if_neg hlong, appendFragmentedMessage2_agrees hat hsrc htwo hbytes
        p.maxPayloadLength_ge p.maxPayloadLength_aligned p.maxPayloadLength_lt (show 0 < length by omega) (by omega)]

/-! ## Claims that are filled and committed -/

/-- Stores through a part of a memory are stores into the memory. -/
theorem write_part (m : Memory) (d a : Int) (bytes : List UInt8) :
    (fun i => write (fun j => m (d + j)) a bytes (i - d)) = write m (d + a) bytes := by
  funext i
  have hplace : (i - d - a).toNat = (i - (d + a)).toNat := by omega
  have hself : d + (i - d) = i := by omega
  by_cases hin : a ≤ i - d ∧ i - d < a + bytes.length
  · simp only [write, if_pos hin, if_pos (show d + a ≤ i ∧ i < d + a + bytes.length by omega), hplace]
  · simp only [write, if_neg hin, if_neg (show ¬(d + a ≤ i ∧ i < d + a + bytes.length) by omega), hself]

namespace Claim

variable (c : Claim) (log : Log)

/-- A log whose bytes in one partition are replaced. -/
def inPartition (m : Memory) : Log :=
  { log with terms := fun j => if j = c.termIndex then m else log.terms j }

theorem fill_eq (index : Int) (bytes : List UInt8) :
    c.fill log index bytes = c.inPartition log (write (log.terms c.termIndex) (c.offset + index) bytes) := by
  rw [← write_part]
  rfl

theorem commit_eq (hsmall : c.frameLength ≤ 1073741824) (hge : 32 ≤ c.frameLength) :
    c.commit log = .ok (c.inPartition log (put 4 (log.terms c.termIndex) c.offset c.frameLength)) := by
  have hs : Addressable (c.buffer log) := hsmall
  have hput : (fun i => put 4 (c.buffer log).bytes 0 c.frameLength (i - c.offset)) =
      put 4 (log.terms c.termIndex) (c.offset + 0) c.frameLength := write_part _ _ _ _
  rw [Int.add_zero] at hput
  rw [commit, Buffer.putInt32_ok hs (Int.le_refl 0) (by show _ ≤ c.frameLength; omega), ← hput]
  rfl

end Claim

/-- `TryClaim`, the message through the claim's buffer, and `Commit`. -/
def claimAndCommit (p : StreamParams) (pub : PublicationState) (message : List UInt8) :
    Except Stop (Int × PublicationState) := do
  let r ← tryClaim p pub message.length
  match r.written with
  | some (index, offset, frameLength) =>
    let claim : Claim := ⟨index, offset, frameLength⟩
    let log ← claim.commit (claim.fill r.publication.log headerLength message)
    return (r.value, { r.publication with log := log })
  | none => return (r.value, r.publication)

section Claimed

variable {a : Appender} {termId offset : Int} (h : AppenderAt a termId offset)

include h

/-- An append that does not fit has nothing to do with its store. -/
theorem append_ends_eq {α : Type} {required : Int} (lo : 0 < required) (hi : required < 2147483648)
    (store : Buffer → Int → Int → Except Stop (Buffer × α)) (hends : a.termBuffer.length < offset + required) :
    a.append required store = (do
      let x ← handleEndOfLogCondition termId a.termBuffer offset a.headerWriter a.termBuffer.length
      return ⟨{ a with termBuffer := x.2, rawTail := rawTail termId (offset + required) }, x.1, termId, none⟩) := by
  obtain ⟨hid, hofs, hadd, hsum, hword⟩ := h.tail lo hi
  simp only [Appender.append, hid, hofs, hadd, hsum, hword, if_pos hends]

variable {message : List UInt8}
  (hfits : offset + ((message.length : Int) + 63) / 32 * 32 ≤ a.termBuffer.length)

include hfits

/-- A claim leaves a header. -/
theorem claim_fits :
    a.claim message.length = .ok ⟨a.moved (a.headerWriter.bytes a.termBuffer.bytes offset (message.length + 32) termId)
      termId (offset + ((message.length : Int) + 63) / 32 * 32), offset + ((message.length : Int) + 63) / 32 * 32, termId,
      some (offset, message.length + 32)⟩ := by
  have hs := h.addressable
  have hsmall : a.termBuffer.length ≤ 1073741824 := hs
  have hlo := h.offset_nonneg
  obtain ⟨hid, hofs, hadd, hsum, hword⟩ := h.tail (show 0 < ((message.length : Int) + 63) / 32 * 32 by omega) (by omega)
  rw [claim_eq a (by omega) (by omega)]
  simp only [Appender.append, hid, hofs, hadd, hsum, hword, if_neg (Int.not_lt.mpr hfits)]
  rw [Appender.storeClaim, a.headerWriter.write_ok termId hs hlo (by omega) (by omega) (by omega), ok_bind,
    boundsCheck_ok hlo (by omega) (by omega) hs.lt]
  rfl

/-- A message in one frame leaves a header, the payload, the reserved value of nil, and the length. -/
theorem message_fits {buffer : Buffer} {srcOffset length : Int} (hsrc : Source buffer srcOffset length)
    (hmessage : sourceBytes buffer srcOffset length = message)
    (hzero : ∀ i, offset + 24 ≤ i → i < offset + 32 → a.termBuffer.bytes i = 0) :
    a.appendUnfragmentedMessage buffer srcOffset length (some defaultReservedValueSupplier) =
      .ok ⟨a.moved (put 4 (write (a.headerWriter.bytes a.termBuffer.bytes offset (message.length + 32) termId)
        (offset + 32) message) offset (message.length + 32)) termId (offset + ((message.length : Int) + 63) / 32 * 32),
        offset + ((message.length : Int) + 63) / 32 * 32, termId, some ()⟩ := by
  have hs := h.addressable
  have hsmall : a.termBuffer.length ≤ 1073741824 := hs
  have hs' : ∀ m, Addressable ⟨m, a.termBuffer.length⟩ := fun _ => hs
  have hlo := h.offset_nonneg
  have hlength := hsrc.length_bytes
  rw [hmessage] at hlength
  obtain ⟨hid, hofs, hadd, hsum, hword⟩ := h.tail (show 0 < ((message.length : Int) + 63) / 32 * 32 by omega) (by omega)
  -- neither the header nor the payload touches the reserved value
  have hreserved : put 8 (write (a.headerWriter.bytes a.termBuffer.bytes offset (message.length + 32) termId)
      (offset + 32) message) (offset + 24) 0 =
      write (a.headerWriter.bytes a.termBuffer.bytes offset (message.length + 32) termId) (offset + 32) message := by
    apply put_zero
    intro i lo hi
    rw [write_of_outside (.inl (by omega)), a.headerWriter.bytes_agree _ _ _ _ i (.inr (by omega))]
    exact hzero i lo (by omega)
  rw [appendUnfragmentedMessage_eq a (by omega) (by omega), ← hlength]
  simp only [Appender.append, hid, hofs, hadd, hsum, hword, if_neg (Int.not_lt.mpr hfits)]
  rw [hlength, storeMessage_eq a.headerWriter hsrc _ termId hs hlo (by omega), hmessage, storePayload,
    Appender.supplyReserved, putReservedValue_ok (hs' _) hlo (by simp only; omega), ok_bind, defaultReservedValueSupplier,
    hreserved, setFrameLength_ok (hs' _) hlo (by simp only; omega), hlength]
  rfl

end Claimed

/-- A filled and committed claim leaves the partition of an offer. -/
theorem fill_commit_eq (log : Log) (index : Int) (a : Appender) (m : Memory) (termId offset frameLength next : Int)
    (message : List UInt8) (hsmall : frameLength ≤ 1073741824) (hge : 32 ≤ frameLength) :
    Claim.commit ⟨index, offset, frameLength⟩
        (Claim.fill ⟨index, offset, frameLength⟩ (log.setAppender index (a.moved m termId next)) headerLength message) =
      .ok (log.setAppender index (a.moved (put 4 (write m (offset + 32) message) offset frameLength) termId next)) := by
  rw [Claim.fill_eq, Claim.commit_eq _ _ hsmall hge]
  congr 1
  simp only [Claim.inPartition, Log.setAppender, Appender.moved, if_true, headerLength]
  congr 1
  funext j
  by_cases hj : j = index
  · rw [if_pos hj, if_pos hj]
  · rw [if_neg hj, if_neg hj, if_neg hj, if_neg hj]

/-- **A claim that is filled with a message and committed is an offer of the message** without a
supplier, where the reserved value is zero. -/
theorem claimAndCommit_eq_offer {pub : PublicationState} {n off : Int} (h : LogAt p pub.log n off)
    (hroom : pub.limit ≤ producerPosition p n off + p.termLength / 2) {buffer : Buffer} {offset length : Int} (hsrc : Source buffer offset length) (hmax : length ≤ p.maxPayloadLength)
    (hzero : ∀ i, off + 32 ≤ p.termLength → off + 24 ≤ i → i < off + 32 → pub.log.terms (n % 3) i = 0) :
    claimAndCommit p pub (sourceBytes buffer offset length) =
      (offer p pub buffer offset length none).map fun r => (r.value, r.publication) := by
  have hle := p.termLength_le
  have hword := p.frame_word hmax
  have hlo := hsrc.length_nonneg
  have hoff := h.off_nonneg
  obtain ⟨message, hmessage⟩ : ∃ message, sourceBytes buffer offset length = message := ⟨_, rfl⟩
  have hlength := hsrc.length_bytes
  rw [hmessage] at hlength
  rw [hmessage, claimAndCommit, tryClaim, offer]
  by_cases hclosed : pub.isClosed = true
  · rw [if_pos hclosed, if_pos hclosed]
    rfl
  rw [if_neg hclosed, if_neg hclosed, hlength, if_neg (Int.not_lt.mpr hmax), publish_eq h, publish_eq h]
  by_cases hlimit : pub.limit ≤ n * p.termLength + off
  · rw [if_pos hlimit, if_pos hlimit]
    rfl
  have hat := h.appenderAt (LogAt.off_lt_word p hroom (Int.not_le.mp hlimit))
  rw [if_neg hlimit, if_neg hlimit]
  simp only [if_pos hmax]
  by_cases hfits : off + (length + 63) / 32 * 32 ≤ p.termLength
  · have hclaim := claim_fits hat (by rw [hlength]; exact hfits)
    have hoffer := message_fits hat (by rw [hlength]; exact hfits) hsrc hmessage fun i lo hi => hzero i (by omega) lo hi
    rw [hlength] at hclaim hoffer
    have hpos : 0 < off + (length + 63) / 32 * 32 := by omega
    simp only [Option.getD_none, hclaim, hoffer, newPosition, if_pos hpos, Option.map_some, pure, Except.pure, ok_bind,
      Except.map]
    rw [fill_commit_eq _ _ _ _ _ _ _ _ _ (by omega) (by omega), ok_bind]
  · have hclaim := append_ends_eq hat (show 0 < (length + 63) / 32 * 32 by omega) (by omega)
      (Appender.storeClaim (pub.log.appender p (n % 3)).headerWriter (length + 32)) (Int.not_le.mp hfits)
    have hoffer := append_ends_eq hat (show 0 < (length + 63) / 32 * 32 by omega) (by omega)
      (Appender.storeMessage (pub.log.appender p (n % 3)).headerWriter (length + 32) buffer offset length
        (some defaultReservedValueSupplier)) (Int.not_le.mp hfits)
    rw [claim_eq _ (by omega) (by omega), Option.getD_none, appendUnfragmentedMessage_eq _ (by omega) (by omega), hclaim, hoffer]
    -- both come to the same end of the term
    cases handleEndOfLogCondition (i32 (p.initialTermId + n)) (pub.log.appender p (n % 3)).termBuffer off
      (pub.log.appender p (n % 3)).headerWriter (pub.log.appender p (n % 3)).termBuffer.length with
    | error e => rfl
    | ok x =>
      simp only [pure, Except.pure, ok_bind]
      generalize newPosition p _ n off (i32 (p.initialTermId + n)) _ x.1 = y
      cases y with
      | error e => rfl
      | ok y => rfl

/-! ## In every state of a stream -/

/-- The reserved value behind the tail is zero. -/
theorem Inv.reserved_zero {σ : Type} {Q : List Slot → List Slot → σ → Prop} {s : State σ} {n off : Int}
    {entries : List Entry} {consumed live : List Slot} (h : Inv p Q s n off entries consumed live) {i : Int}
    (hfits : off + 32 ≤ p.termLength) (lo : off + 24 ≤ i) (hi : i < off + 32) : s.log.terms (n % 3) i = 0 := by
  have hoff := h.logAt.off_nonneg
  have hone := Int.add_mul n 1 p.termLength
  rw [← Log.bytes_at p s.log n (by omega) (by omega)]
  apply h.zero
  · rw [producerPosition, Int.min_eq_left (by omega)]
    omega
  · rw [zeroEnd, if_pos (by omega)]
    omega

/-- **The ways to publish a message agree.** In every state that one publisher can bring a log to,
whatever the MTU, the parts, their buffers and their offsets: `Offer2` of the parts and `Offer` of the message
return the same value and leave the same log, and so does a claim that is filled with the message and
committed, if the message fits a frame. -/
theorem paths_agree (p : StreamParams) {s : State (Builders × List (List UInt8))}
    (hs : (system p (assembling p) (fun _ => none, [])).Reachable s) {buffer : Buffer} {offset length : Int}
    (hsrc : Source buffer offset length) :
    (∀ (src : TwoParts) (supplier : Option ReservedValueSupplier), TwoSources src →
      twoBytes src = sourceBytes buffer offset length →
      offer2 p s.publication src supplier = offer p s.publication buffer offset length supplier) ∧
    (length ≤ p.maxPayloadLength →
      claimAndCommit p s.publication (sourceBytes buffer offset length) =
        (offer p s.publication buffer offset length none).map fun r => (r.value, r.publication)) := by
  obtain ⟨n, off, entries, consumed, live, h⟩ := reachable_inv (Assembled.sound p) hs
  refine ⟨fun src supplier htwo hbytes => offer2_eq_offer h.logAt h.room hsrc htwo hbytes supplier,
    fun hmax => ?_⟩
  exact claimAndCommit_eq_offer h.logAt h.room hsrc hmax fun i hfits lo hi => h.reserved_zero hfits lo hi

/-- The parts of a message of 40 bytes, from one buffer. -/
def fifteenAndRest : TwoParts where
  bufferOne := makeBuffer (List.replicate 48 6)
  offsetOne := 2
  lengthOne := 15
  bufferTwo := makeBuffer (List.replicate 40 6)
  offsetTwo := 0
  lengthTwo := 25

theorem paths_agree_fifteenAndRest :
    ∃ s, (system .smallest (assembling .smallest) (fun _ => none, [])).Reachable s ∧
      ((offer .smallest s.publication (makeBuffer (List.replicate 40 6)) 0 40 none).toOption.map Published.value =
        some 256) ∧
      offer2 .smallest s.publication fifteenAndRest none =
        offer .smallest s.publication (makeBuffer (List.replicate 40 6)) 0 40 none ∧
      claimAndCommit .smallest s.publication [1, 2, 3] =
        (offer .smallest s.publication (makeBuffer [1, 2, 3]) 0 3 none).map fun r => (r.value, r.publication) := by
  obtain ⟨s, hs, hq⟩ := exists_reachable_of_calm .smallest (assembling .smallest) (fun _ => none, [])
    [.driver 32768 true, .offer (makeBuffer (List.replicate 40 5)) 0 40 none]
    (fun s => (offer .smallest s.publication (makeBuffer (List.replicate 40 6)) 0 40 none).toOption.map
      Published.value = some 256) (by decide +kernel)
  refine ⟨s, hs, of_decide_eq_true hq, ?_, ?_⟩
  · exact (paths_agree .smallest hs ⟨by decide, by decide, by decide, by decide⟩).1 fifteenAndRest none
      ⟨⟨by decide, by decide, by decide, by decide⟩, by decide, by decide, by decide, by decide⟩ (by decide +kernel)
  · have hagree := (@paths_agree .smallest s hs (makeBuffer [1, 2, 3]) 0 3 ⟨by decide, by decide, by decide, by decide⟩).2
      (by decide)
    have hbytes : sourceBytes (makeBuffer [1, 2, 3]) 0 3 = [1, 2, 3] := by decide +kernel
    rwa [hbytes] at hagree

end AeronGo.Stream
