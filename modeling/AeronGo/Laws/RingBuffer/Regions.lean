import AeronGo.Laws.RingBuffer.ManyToOne
import AeronGo.Machine.Circle
import Mathlib.Data.Nat.Bitwise

/-!
# Which rings are safe to write to

A write stores the record of its message, and before it a record of padding where it skips the end of the buffer; each
has a header of eight bytes. Records are placed by masking a position with the capacity less one. If the capacity is a
power of two that winds the line of positions around the buffer, and records that are written without consumption are
apart from each other. Of any other capacity bits are missing in the mask, and a record is written over another one, or
the padding at the end is too short for its header; below eight bytes there is no room for a record at all.

`Write` does not refuse a negative length. A message of -8 bytes claims nothing and stores a header, so the next record is
put over it, whatever the capacity. The callers of this client pass no such length. Producers that write at the same time
are not part of this: a call runs alone.
-/

namespace AeronGo.RingBuffer.ManyToOne

open Machine Atomic Util

/-- A message to write. -/
structure Sent where
  msgTypeID : Int
  srcBuffer : Buffer
  srcIndex : Int
  length : Int

/-- `Write` of a message. -/
def send (buf : ManyToOne) (msg : Sent) : Except Stop (Bool × ManyToOne) :=
  buf.write msg.msgTypeID msg.srcBuffer msg.srcIndex msg.length

/-- The rings over a buffer of a length: fresh, and after every write of a message of `least` bytes or more, every id that
is taken and every consumption. The consumer moves its own position over some of the bytes that were written, and may clear
them. -/
inductive Reached (length least : Int) : ManyToOne → Prop
  | fresh {buf : ManyToOne} : init ⟨fun _ => 0, length⟩ = .ok buf → Reached length least buf
  | write {buf buf' : ManyToOne} {accepted : Bool} (msg : Sent) : least ≤ msg.length →
      Reached length least buf → buf.send msg = .ok (accepted, buf') → Reached length least buf'
  | takeID {buf buf' : ManyToOne} {id : Int} :
      Reached length least buf → buf.nextCorrelationID = .ok (id, buf') → Reached length least buf'
  | consume {buf : ManyToOne} {m : Memory} (n : Int) : Reached length least buf → 0 ≤ n →
      n ≤ i64 (getInt64 buf.buffer.bytes buf.tailPositionIndex - getInt64 buf.buffer.bytes buf.headPositionIndex) →
      getInt64 m buf.headPositionIndex = i64 (getInt64 buf.buffer.bytes buf.headPositionIndex + n) →
      (∀ a, buf.capacity ≤ a → (a < buf.headPositionIndex ∨ buf.headPositionIndex + 8 ≤ a) → m a = buf.buffer.bytes a) →
      Reached length least (buf.withBytes m)

/-- The region of a record. Its header is stored, however short the record is. -/
def recordRegion (index length : Int) : Region := ⟨index, max length headerLength⟩

/-- The records that a claim and its write store: the message's, and padding at the tail if the tail has moved further than
over the message. -/
def stored (buf claimed : ManyToOne) (index required : Int) : List Region :=
  let tail := getInt64 buf.buffer.bytes buf.tailPositionIndex
  let padding := i64 (getInt64 claimed.buffer.bytes claimed.tailPositionIndex - tail - required)
  if padding = 0 then [recordRegion index required]
  else [recordRegion (and64 tail (buf.capacity - 1)) padding, recordRegion index required]

/-- Successful writes one after the other, with the regions of the records that they store. -/
inductive Written (least : Int) : ManyToOne → List Region → ManyToOne → Prop
  | nil {buf : ManyToOne} : Written least buf [] buf
  | cons {buf claimed buf₁ buf' : ManyToOne} {index : Int} {regions : List Region} (msg : Sent) : least ≤ msg.length →
      buf.claimCapacity (requiredCapacity msg.length) = .ok (index, claimed) → buf.send msg = .ok (true, buf₁) →
      Written least buf₁ regions buf' →
      Written least buf (stored buf claimed index (requiredCapacity msg.length) ++ regions) buf'

/-- **Safe to use** for messages of `least` bytes or more: the regions are inside the ring, and apart from each other. -/
def Safe (length least : Int) : Prop :=
  ∀ buf regions buf', Reached length least buf → Written least buf regions buf' →
    (∀ r ∈ regions, r.Within (length - trailerLength)) ∧ regions.Pairwise Region.Apart

/-! ## One write -/

section Write

variable {buf buf' : ManyToOne} {cached head tail : Int} {msg : Sent} {accepted : Bool}

/-- What a claim has stored, by where it is. -/
theorem Claim.stored_eq {required index padding : Int} {claimed : ManyToOne} (wf : buf.WellFormed)
    (htail : claimed.tailPositionIndex = claimed.capacity + 128) (hat : At buf cached head tail) {cached' : Int}
    (h : Claim buf cached head tail required index claimed cached' padding) :
    stored buf claimed index required = if padding = 0 then [recordRegion index required]
      else [recordRegion (buf.positionIndex tail) padding, recordRegion index required] := by
  have hrange := positionIndex_range wf tail
  have hlength := wf.length_eq
  have hlt := wf.length_lt
  have hpadding : i64 (i64 (tail + required + padding) - i64 tail - required) = padding := by
    have hplace := h.place
    simp only [i64]
    omega
  rw [stored, wf.tailIndex_eq, htail, hat.tail_word, h.positions.tail_word, hpadding]
  rfl

/-- A write that is turned down moves nothing but the cached position. -/
theorem send_false (wf : buf.WellFormed) (h : At buf cached head tail) (hnear : tail - cached < 2147483648)
    (hlo : -8 ≤ msg.length) (hsend : buf.send msg = .ok (false, buf')) :
    ∃ m cached', buf' = buf.withBytes m ∧ At buf' cached' head tail ∧ cached ≤ cached' := by
  rw [send, ManyToOne.write] at hsend
  obtain ⟨_, _, hsend⟩ := ok_of_bind hsend
  obtain ⟨_, hlength, hsend⟩ := ok_of_bind hsend
  obtain ⟨⟨index, buf₁⟩, hclaim, hsend⟩ := ok_of_bind hsend
  have hle : msg.length ≤ buf.maxMsgLength := by
    rw [checkMsgLength] at hlength
    split at hlength
    · cases hlength
    next hle => exact Int.not_lt.mp hle
  have hpos := wf.capacity_pos
  have hcapacity := wf.length_eq
  have hlt := wf.length_lt
  rw [wf.maxMsgLength_eq] at hle
  have hrequired := requiredCapacity_eq hlo (by omega)
  dsimp only at hsend
  split at hsend
  · cases hsend
    rcases claimCapacity_at wf h hnear (show 0 ≤ requiredCapacity msg.length by omega) with
      ⟨cached', m, hclaim', _, hat, hlater, _⟩ | ⟨index', m, cached', padding, hclaim', claim⟩
    · rw [hclaim] at hclaim'
      cases hclaim'
      exact ⟨m, cached', rfl, hat, hlater⟩
    next hindex =>
      rw [hclaim] at hclaim'
      cases hclaim'
      have hrange := (claim.range wf).1
      rw [hindex] at hrange
      exact absurd hrange (by decide)
  · obtain ⟨_, _, hsend⟩ := ok_of_bind hsend
    cases hsend

/-- A write that succeeds claims a place and moves the tail. -/
theorem send_true (wf : buf.WellFormed) (h : At buf cached head tail) (hnear : tail - cached < 2147483648)
    (hlo : -8 ≤ msg.length) (hsend : buf.send msg = .ok (true, buf')) :
    ∃ index claimed cached' padding m, buf.claimCapacity (requiredCapacity msg.length) = .ok (index, claimed) ∧
      Claim buf cached head tail (requiredCapacity msg.length) index claimed cached' padding ∧
      stored buf claimed index (requiredCapacity msg.length) = (if padding = 0 then
        [recordRegion index (requiredCapacity msg.length)]
      else [recordRegion (buf.positionIndex tail) padding, recordRegion index (requiredCapacity msg.length)]) ∧
      buf' = buf.withBytes m ∧ At buf' cached' head (tail + requiredCapacity msg.length + padding) ∧
      requiredCapacity msg.length = (msg.length + 15) / 8 * 8 := by
  have hmsg := message_of_write hlo hsend
  have hle := hmsg.length_le
  have hpos := wf.capacity_pos
  have hcapacity := wf.length_eq
  have hlt := wf.length_lt
  rw [wf.maxMsgLength_eq] at hle
  have hrequired := requiredCapacity_eq hlo (show msg.length ≤ 2147483632 by omega)
  rcases write_at wf h hnear hmsg with ⟨_, m, _, hwrite, _⟩ | ⟨index, m, cached', padding, hclaim, claim, hwrite⟩
  · rw [send, hwrite] at hsend
    cases hsend
  · rw [send, hwrite] at hsend
    cases hsend
    obtain ⟨hindex, hend⟩ := claim.range wf
    refine ⟨index, _, cached', padding, _, hclaim, claim, claim.stored_eq wf (wf.withBytes m).tailIndex_eq h, rfl, ?_,
      hrequired⟩
    -- the record lies in front of the positions, which are 128 bytes behind the end of the ring
    refine claim.positions.congr (m := _) fun a ha _ => write_of_outside (.inr ?_)
    rw [length_recordBytes, length_read]
    simp only [withBytes_capacity] at ha
    omega

end Write

/-! ## Every ring -/

/-- No claim of a record takes the tail further than `bound` from the cached position of the consumer, or off the
alignment of records. -/
def Stays (capacity bound : Int) : Prop :=
  ∀ ⦃buf claimed : ManyToOne⦄ ⦃cached head tail required index cached' padding : Int⦄, buf.WellFormed →
    buf.capacity = capacity → 8 ≤ required → At buf cached head tail → tail % 8 = 0 →
    Claim buf cached head tail required index claimed cached' padding →
    tail + required + padding ≤ cached' + bound ∧ padding % 8 = 0

variable {buf : ManyToOne} {length least : Int}

theorem fresh_at (lo : 0 ≤ length) (hi : length < 2147483648)
    (hinit : init ⟨fun _ => 0, length⟩ = .ok buf) : buf.WellFormed ∧ buf.capacity = length - 768 ∧ At buf 0 0 0 := by
  obtain ⟨wf, hbuffer, hcapacity⟩ := init_ok lo hi hinit
  have hzero : ∀ a, getInt64 buf.buffer.bytes a = i64 0 := by
    intro a
    rw [hbuffer]
    rfl
  exact ⟨wf, hcapacity, hzero _, hzero _, hzero _, Int.le_refl 0, Int.le_refl 0⟩

/-- A ring with its positions. -/
structure Sound (capacity bound : Int) (buf : ManyToOne) (cached head tail : Int) : Prop where
  wf : buf.WellFormed
  capacity_eq : buf.capacity = capacity
  positions : At buf cached head tail
  near : tail ≤ cached + bound
  aligned : tail % 8 = 0

variable {regions : List Region}

section Sound

variable {capacity bound least : Int} {buf buf' : ManyToOne} {cached head tail : Int} (hleast : -8 < least)

include hleast

theorem Sound.send_true (hbound : bound < 2147483648) (hstays : Stays capacity bound)
    (h : Sound capacity bound buf cached head tail) {msg : Sent} (hmsg : least ≤ msg.length)
    (hsend : buf.send msg = .ok (true, buf')) :
    ∃ index claimed cached' padding, buf.claimCapacity (requiredCapacity msg.length) = .ok (index, claimed) ∧
      Claim buf cached head tail (requiredCapacity msg.length) index claimed cached' padding ∧
      stored buf claimed index (requiredCapacity msg.length) = (if padding = 0 then [⟨index, requiredCapacity msg.length⟩]
        else [⟨buf.positionIndex tail, max padding 8⟩, ⟨index, requiredCapacity msg.length⟩]) ∧
      8 ≤ requiredCapacity msg.length ∧ padding % 8 = 0 ∧
      Sound capacity bound buf' cached' head (tail + requiredCapacity msg.length + padding) := by
  have hnear := h.near
  have haligned := h.aligned
  obtain ⟨index, claimed, cached', padding, m, hclaim, claim, hstored, rfl, hat, hrequired⟩ :=
    ManyToOne.send_true h.wf h.positions (by omega) (by omega) hsend
  obtain ⟨hnear', hpadding⟩ := hstays h.wf h.capacity_eq (by omega) h.positions haligned claim
  have hheader : ∀ index, recordRegion index (requiredCapacity msg.length) = ⟨index, requiredCapacity msg.length⟩ := by
    intro index
    rw [recordRegion, headerLength, Int.max_eq_left (by omega)]
  rw [hheader] at hstored
  exact ⟨index, claimed, cached', padding, hclaim, claim, hstored, by omega, hpadding,
    h.wf.withBytes m, h.capacity_eq, hat, hnear', by omega⟩

/-- **Every ring has its positions**: the ways to go on keep them. -/
theorem Reached.sound {length : Int} (lo : 0 ≤ length) (hi : length < 2147483648) (hbound : bound < 2147483648)
    (hnonneg : 0 ≤ bound) (hstays : Stays (length - 768) bound) (h : Reached length least buf) :
    ∃ cached head tail, Sound (length - 768) bound buf cached head tail := by
  induction h with
  | fresh hinit =>
    obtain ⟨wf, hcapacity, hat⟩ := fresh_at lo hi hinit
    exact ⟨0, 0, 0, wf, hcapacity, hat, by omega, rfl⟩
  | @write buf buf' accepted msg hmsg _ hsend ih =>
    obtain ⟨cached, head, tail, h⟩ := ih
    cases accepted with
    | true =>
      obtain ⟨_, _, cached', padding, _, _, _, _, _, hsound⟩ := h.send_true hleast hbound hstays hmsg hsend
      exact ⟨cached', head, _, hsound⟩
    | false =>
      have hnear := h.near
      obtain ⟨m, cached', rfl, hat, hlater⟩ := send_false h.wf h.positions (by omega) (by omega) hsend
      exact ⟨cached', head, tail, h.wf.withBytes m, h.capacity_eq, hat, by omega, h.aligned⟩
  | takeID _ hid ih =>
    obtain ⟨cached, head, tail, h⟩ := ih
    obtain ⟨id, m, htaken, hat⟩ := nextCorrelationID_at h.wf h.positions
    rw [hid] at htaken
    cases htaken
    exact ⟨cached, head, tail, h.wf.withBytes m, h.capacity_eq, hat, h.near, h.aligned⟩
  | @consume buf m n _ hn hle hhead hkept ih =>
    obtain ⟨cached, head, tail, h⟩ := ih
    have hnear := h.near
    have hcached := h.positions.cached_le
    have htail := h.positions.head_le
    rw [h.wf.tailIndex_eq, h.wf.headIndex_eq, h.positions.tail_word, h.positions.head_word] at hle
    rw [h.wf.headIndex_eq] at hhead hkept
    rw [h.positions.head_word] at hhead
    have hdiff : i64 (i64 tail - i64 head) = tail - head := by
      simp only [i64]
      omega
    have hsum : i64 (i64 head + n) = i64 (head + n) := by
      simp only [i64]
      omega
    rw [hdiff] at hle
    rw [hsum] at hhead
    refine ⟨cached, head + n, tail, h.wf.withBytes m, h.capacity_eq, ⟨?_, hhead, ?_, by omega, by omega⟩, hnear, h.aligned⟩
    · refine (getInt64_congr fun i lo hi => hkept i ?_ (.inl ?_)).trans h.positions.cache_word
      · simp at lo
        omega
      · simp at hi
        omega
    · refine (getInt64_congr fun i lo hi => hkept i ?_ (.inl ?_)).trans h.positions.tail_word
      · simp at lo
        omega
      · simp at hi
        omega

end Sound

/-! ## A power of two -/

section PowerOfTwo

variable {k : Nat} {least : Int} {buf buf' : ManyToOne} {head : Int}

/-- The mask winds the positions around the buffer. -/
theorem positionIndex_pow (hk : k < 31) (hcapacity : buf.capacity = 2 ^ k) (position : Int) :
    buf.positionIndex position = position % 2 ^ k := by
  have hdvd : (2 : Int) ^ k ∣ 18446744073709551616 := by
    rw [show (18446744073709551616 : Int) = 2 ^ 64 by norm_num]
    exact pow_dvd_pow 2 (by omega)
  have hword : i64 position = position + 18446744073709551616 * -((position + 9223372036854775808) / 18446744073709551616) := by
    rw [i64]
    omega
  rw [positionIndex, hcapacity, and64_mask (by omega), hword, Int.add_emod,
    Int.emod_eq_zero_of_dvd (Dvd.dvd.mul_right hdvd _), Int.add_zero, Int.emod_emod_of_dvd _ (dvd_refl _)]

/-- A record that goes to the start of the buffer ends before the consumer. -/
theorem wrapped_le {c cached tail required : Int} (hc : 0 < c) (hroom : tail + required ≤ cached + c) (hwrap : c < tail % c + required) (hfits : required ≤ cached % c) :
    tail + required + (c - tail % c) ≤ cached + c := by
  have htail := Int.emod_add_mul_ediv tail c
  have hcached := Int.emod_add_mul_ediv cached c
  have hlt := Int.emod_lt_of_pos cached hc
  have hnonneg := Int.emod_nonneg tail (Int.ne_of_gt hc)
  by_cases hbehind : cached / c < tail / c
  · have hfar : c * (cached / c + 1) ≤ c * (tail / c) := Int.mul_le_mul_of_nonneg_left (by omega) (Int.le_of_lt hc)
    rw [Int.mul_add] at hfar
    omega
  · have hahead : c * (tail / c) ≤ c * (cached / c) := Int.mul_le_mul_of_nonneg_left (by omega) (Int.le_of_lt hc)
    omega

theorem stays_pow (hk : k < 31) (hthree : 3 ≤ k) : Stays (2 ^ k) (2 ^ k) := by
  intro buf claimed cached head tail required index cached' padding wf hcapacity _ h haligned claim
  have hroom := claim.room
  have hpos : (0 : Int) < 2 ^ k := by positivity
  rcases claim.place with ⟨rfl, _, _⟩ | ⟨rfl, hwrap, _, hfits⟩
  · exact ⟨by omega, rfl⟩
  · rw [positionIndex_pow hk hcapacity, hcapacity] at hwrap ⊢
    rw [positionIndex_pow hk hcapacity] at hfits
    rw [hcapacity] at hroom
    have hdvd : (2 : Int) ^ 3 ∣ 2 ^ k := pow_dvd_pow 2 hthree
    have hindex : tail % 2 ^ k % 8 = tail % 8 := Int.emod_emod_of_dvd tail hdvd
    obtain ⟨q, hq⟩ := hdvd
    exact ⟨wrapped_le hpos hroom hwrap hfits, by omega⟩

/-- Where a claim and its padding are on the line of positions. -/
theorem Claim.liesAt (hk : k < 31) (wf : buf.WellFormed) (hcapacity : buf.capacity = 2 ^ k)
    {cached tail required index cached' padding : Int} (hrequired : 0 ≤ required)
    (h : Claim buf cached head tail required index buf' cached' padding) :
    LiesAt (2 ^ k) (tail + padding) ⟨index, required⟩ ∧ 0 ≤ padding ∧
      LiesAt (2 ^ k) tail ⟨buf.positionIndex tail, padding⟩ := by
  have hpos : (0 : Int) < 2 ^ k := by positivity
  have hend := (h.range wf).2
  rw [hcapacity] at hend
  have hlt := Int.emod_lt_of_pos tail hpos
  have hindex := positionIndex_pow hk hcapacity tail
  rcases h.place with ⟨rfl, rfl, _⟩ | ⟨rfl, _, rfl, _⟩
  · refine ⟨⟨?_, hend, hrequired⟩, Int.le_refl 0, hindex.symm, by dsimp only; omega, Int.le_refl 0⟩
    rw [Int.add_zero, hindex]
  · rw [hindex, hcapacity]
    refine ⟨⟨?_, hend, hrequired⟩, by omega, rfl, by dsimp only; omega, by dsimp only; omega⟩
    have hturn : tail + (2 ^ k - tail % 2 ^ k) = 2 ^ k * (tail / 2 ^ k + 1) := by
      have hsplit := Int.emod_add_mul_ediv tail (2 ^ k)
      rw [Int.mul_add, Int.mul_one]
      omega
    rw [hturn, Int.mul_emod_right]

theorem Written.placed (hleast : -8 < least) (hk : k < 31) (hthree : 3 ≤ k) (hrun : Written least buf regions buf') :
    ∀ {cached tail}, Sound (2 ^ k) (2 ^ k) buf cached head tail →
      ∃ cached' tail', Sound (2 ^ k) (2 ^ k) buf' cached' head tail' ∧ Placed (2 ^ k) tail regions tail' := by
  have hbound : (2 : Int) ^ k < 2147483648 := by
    have := pow_lt_pow_right₀ (show (1 : Int) < 2 by norm_num) hk
    norm_num at this
    exact this
  induction hrun with
  | nil => exact fun h => ⟨_, _, h, .nil (Int.le_refl _)⟩
  | cons msg hmsg hclaim hsend _ ih =>
    intro cached tail h
    obtain ⟨index, claimed, cached', padding, hclaim', claim, hstored, hrequired, hpadding, hnext⟩ :=
      h.send_true hleast hbound (stays_pow hk hthree) hmsg hsend
    rw [hclaim] at hclaim'
    cases hclaim'
    obtain ⟨cached'', tail', hend, hplaced⟩ := ih hnext
    obtain ⟨hlies, hnonneg, hskipped⟩ := claim.liesAt hk h.wf h.capacity_eq (by omega)
    refine ⟨cached'', tail', hend, ?_⟩
    rw [Int.add_right_comm] at hplaced
    rw [hstored]
    split
    next hnone => exact .cons (by omega) hlies hplaced
    next hsome =>
      rw [Int.max_eq_left (show (8 : Int) ≤ padding by omega)]
      exact .cons (Int.le_refl _) hskipped (.cons (Int.le_refl _) hlies hplaced)

theorem safe_pow {length : Int} (lo : 0 ≤ length) (hi : length < 2147483648) (hleast : -8 < least) (hthree : 3 ≤ k)
    (hlength : length - 768 = 2 ^ k) : Safe length least := by
  intro buf regions buf' hreached hrun
  have hk : k < 31 := by
    by_contra hlarge
    have hpow : (2 : Int) ^ 31 ≤ 2 ^ k := pow_le_pow_right₀ (by norm_num) (by omega)
    norm_num at hpow
    omega
  have hpos : (0 : Int) < 2 ^ k := by positivity
  have hstays : Stays (length - 768) (2 ^ k) := by
    rw [hlength]
    exact stays_pow hk hthree
  obtain ⟨cached, head, tail, h⟩ := hreached.sound hleast lo hi (by omega) (by omega) hstays
  rw [hlength] at h
  obtain ⟨cached', tail', hend, hplaced⟩ := hrun.placed hleast hk hthree h
  have hnear := hend.near
  have hcached := hend.positions.cached_le
  have hhead := h.positions.head_le
  refine ⟨?_, hplaced.pairwise hpos (by omega)⟩
  rw [trailerLength, hlength]
  exact hplaced.within hpos

end PowerOfTwo

/-! ## Less than a record -/

/-- No record is longer than the ring. -/
theorem Claim.required_le {claimed : ManyToOne} {cached head tail required index cached' padding : Int}
    (hat : At buf cached head tail) (h : Claim buf cached head tail required index claimed cached' padding) :
    required ≤ buf.capacity := by
  have hroom := h.room
  have hcached := h.positions.cached_le
  have hhead := hat.head_le
  omega

/-- A ring of less than eight bytes takes no record, so nothing is written. -/
theorem safe_small (lo : 0 ≤ length) (hleast : -8 < least) (hpos : 0 < length - 768)
    (hsmall : length - 768 < 8) : Safe length least := by
  intro buf regions buf' hreached hrun
  have hstays : Stays (length - 768) (length - 768) := by
    intro buf claimed cached head tail required index cached' padding _ hcapacity hrequired hat _ claim
    have hle := claim.required_le hat
    omega
  obtain ⟨cached, head, tail, h⟩ := hreached.sound hleast lo (by omega) (by omega) (by omega) hstays
  cases hrun with
  | nil => exact ⟨nofun, .nil⟩
  | cons msg hmsg _ hsend _ =>
    obtain ⟨_, _, _, _, _, claim, _, hrequired, _⟩ := h.send_true hleast (by omega) hstays hmsg hsend
    have hle := claim.required_le h.positions
    have hcapacity := h.capacity_eq
    omega

/-! ## Other capacities -/

theorem Written.append {buf₁ buf' : ManyToOne} {xs ys : List Region} (h : Written least buf xs buf₁)
    (h' : Written least buf₁ ys buf') : Written least buf (xs ++ ys) buf' := by
  induction h with
  | nil => exact h'
  | cons msg hmsg hclaim hsend _ ih =>
    rw [List.append_assoc]
    exact .cons msg hmsg hclaim hsend (ih h')

theorem Reached.written {buf' : ManyToOne} (h : Reached length least buf)
    (hrun : Written least buf regions buf') : Reached length least buf' := by
  induction hrun with
  | nil => exact h
  | cons msg hmsg _ hsend _ ih => exact ih (.write msg hmsg h hsend)

/-- A message of no bytes, or of eight less. -/
def blank (length : Int) : Sent := ⟨1, ⟨fun _ => 0, 0⟩, 0, length⟩

section Blank

variable {buf : ManyToOne} {cached head tail least : Int}

/-- It is written wherever its record has room. -/
theorem send_blank {length : Int} (hlength : length = 0 ∨ length = -8) (hleast : least ≤ length) (wf : buf.WellFormed)
    (h : At buf cached head tail) (hnear : tail - cached < 2147483648) (hroom : tail + (length + 8) ≤ head + buf.capacity)
    (hplace : buf.positionIndex tail + (length + 8) ≤ buf.capacity ∨ length + 8 ≤ buf.positionIndex head) :
    ∃ index claimed cached' padding m, Written least buf (if padding = 0 then [recordRegion index (length + 8)]
        else [recordRegion (buf.positionIndex tail) padding, recordRegion index (length + 8)]) (buf.withBytes m) ∧
      Claim buf cached head tail (length + 8) index claimed cached' padding ∧
      At (buf.withBytes m) cached' head (tail + (length + 8) + padding) := by
  have hpos := wf.capacity_pos
  have hrequired : requiredCapacity (blank length).length = length + 8 := by rcases hlength with rfl | rfl <;> decide
  have hmsg : Message buf 1 ⟨fun _ => 0, 0⟩ 0 length := by
    refine ⟨by decide, by omega, ?_, by rcases hlength with rfl | rfl <;> decide⟩
    rw [wf.maxMsgLength_eq]
    omega
  rcases write_at wf h hnear hmsg with ⟨_, _, _, _, hfull, _⟩ | ⟨_, _, _, _, _, _, hwrite⟩
  · have hfull : Full buf head tail (requiredCapacity (blank length).length) := hfull
    rw [hrequired, Full] at hfull
    omega
  · have hsend : buf.send (blank length) = _ := hwrite
    obtain ⟨index, claimed, cached', padding, m, hclaim, claim, hstored, hbytes, hat, _⟩ :=
      send_true wf h hnear (show -8 ≤ length by omega) hsend
    rw [hbytes] at hsend hat
    have hrun := Written.cons (blank length) hleast hclaim hsend .nil
    rw [hstored, List.append_nil] at hrun
    rw [hrequired] at hrun claim hat
    exact ⟨index, claimed, cached', padding, m, hrun, claim, hat⟩

theorem positionIndex_nat (wf : buf.WellFormed) {p : Nat} (hp : p < 9223372036854775808) :
    buf.positionIndex p = ((p &&& (buf.capacity - 1).toNat : Nat) : Int) := by
  have hpos := wf.capacity_pos
  have hlength := wf.length_eq
  have hlt := wf.length_lt
  have hword : i64 p = p := i64_eq (by omega)
  have hmod : ((p : Int) % 18446744073709551616).toNat = p := by omega
  rw [positionIndex, hword, and64_eq _ (by omega) (by omega), hmod]

theorem positionIndex_le (wf : buf.WellFormed) {p : Nat} (hp : p < 9223372036854775808) : buf.positionIndex p ≤ p := by
  rw [positionIndex_nat wf hp]
  exact Int.ofNat_le.mpr Nat.and_le_left

/-- From a fresh ring on, one after the other. -/
theorem written_from_fresh (hleast : least ≤ 0) (wf : buf.WellFormed) (h : At buf 0 0 0) (n : Nat) :
    8 * (n : Int) ≤ buf.capacity →
    ∃ m, Written least buf ((List.range n).map fun (i : Nat) => recordRegion (buf.positionIndex ((8 * i : Nat) : Int)) 8)
        (buf.withBytes m) ∧ At (buf.withBytes m) 0 0 ((8 * n : Nat) : Int) := by
  have hlength := wf.length_eq
  have hlt := wf.length_lt
  induction n with
  | zero => exact fun _ => ⟨buf.buffer.bytes, .nil, h⟩
  | succ n ih =>
    intro hn
    obtain ⟨m, hrun, hat⟩ := ih (by omega)
    have hle := positionIndex_le wf (show 8 * n < 9223372036854775808 by omega)
    obtain ⟨index, claimed, cached', padding, m', hnext, claim, hat'⟩ := send_blank (.inl rfl) hleast (wf.withBytes m) hat
      (by omega) (show ((8 * n : Nat) : Int) + (0 + 8) ≤ 0 + buf.capacity by omega)
      (.inl (show buf.positionIndex ((8 * n : Nat) : Int) + (0 + 8) ≤ buf.capacity by omega))
    have hplace : padding = 0 ∧ index = buf.positionIndex ((8 * n : Nat) : Int) := by
      rcases claim.place with ⟨hpadding, hindex, _⟩ | ⟨_, hwrap, _⟩
      · exact ⟨hpadding, hindex⟩
      · exact absurd hwrap (Int.not_lt.mpr (show buf.positionIndex ((8 * n : Nat) : Int) + 8 ≤ buf.capacity by omega))
    obtain ⟨rfl, rfl⟩ := hplace
    have hcached : cached' = 0 := Int.le_antisymm hat'.cached_le claim.later
    refine ⟨m', ?_, ?_⟩
    · rw [List.range_succ, List.map_append]
      exact hrun.append hnext
    · rw [hcached, Int.add_zero] at hat'
      exact hat'

/-- The consumer goes as far as the producers have. -/
theorem consume_all {length : Int} (wf : buf.WellFormed) (h : At buf cached head tail)
    (hnear : tail - cached < 2147483648) (hreached : Reached length least buf) :
    ∃ m, Reached length least (buf.withBytes m) ∧ At (buf.withBytes m) cached tail tail := by
  have hindex := wf.headIndex_eq
  have hcached := h.cached_le
  have htail := h.head_le
  have hword := getInt64_put buf.buffer.bytes buf.headPositionIndex (i64 tail)
  have houtside := fun (a : Int) ha => put_of_outside (w := 8) (m := buf.buffer.bytes) (a := buf.headPositionIndex)
    (i := a) (v := i64 tail) ha
  rw [i64_of_I64 (i64_range tail)] at hword
  refine ⟨put 8 buf.buffer.bytes buf.headPositionIndex (i64 tail), .consume (tail - head) hreached (by omega) ?_ ?_ ?_, ?_⟩
  · rw [wf.tailIndex_eq, hindex, h.tail_word, h.head_word]
    simp only [i64]
    omega
  · rw [hword, hindex, h.head_word]
    simp only [i64]
    omega
  · exact fun a _ ha => houtside a ha
  · refine ⟨?_, ?_, ?_, by omega, Int.le_refl _⟩
    · exact (getInt64_congr fun i lo hi => houtside i (by simp at hi; omega)).trans h.cache_word
    · rw [withBytes_capacity, withBytes_bytes, ← hindex, hword]
    · exact (getInt64_congr fun i lo hi => houtside i (by simp at hi; omega)).trans h.tail_word

/-- A ring without records, at less than eight bytes from its end: the next record goes to its start, and the header of the
padding before it passes the end. -/
theorem padding_outside (hleast : least ≤ 0) (wf : buf.WellFormed) (h : At buf cached tail tail)
    (hnear : tail - cached < 2147483648) (hlarge : 8 ≤ buf.positionIndex tail)
    (hend : buf.capacity < buf.positionIndex tail + 8) :
    ∃ regions buf', Written least buf regions buf' ∧ ∃ r ∈ regions, ¬ r.Within buf.capacity := by
  have hrange := (positionIndex_range wf tail).2
  obtain ⟨index, claimed, cached', padding, m, hrun, claim, _⟩ := send_blank (.inl rfl) hleast wf h hnear (by omega)
    (.inr (by omega))
  have hpadding : padding ≠ 0 := by
    have hplace := claim.place
    omega
  rw [if_neg hpadding] at hrun
  refine ⟨_, _, hrun, _, List.mem_cons_self, fun hwithin => ?_⟩
  have hheader : headerLength ≤ max padding headerLength := Int.le_max_right _ _
  rw [headerLength] at hheader
  have hfits : buf.positionIndex tail + max padding 8 ≤ buf.capacity := hwithin.2
  omega

end Blank

/-- A capacity that is no power of two: the mask lacks a bit below its highest, or the capacity is just below a power of
two. -/
theorem capacity_cases {c : Nat} (hc : 9 ≤ c) :
    (∃ k, c = 2 ^ k) ∨ (∃ j, 3 ≤ j ∧ 2 ^ j + 8 ≤ c ∧ (c - 1).testBit j = false) ∨
    ∃ m, 4 ≤ m ∧ c < 2 ^ m ∧ 2 ^ m ≤ c + 7 := by
  obtain ⟨h, hlow, hhigh⟩ : ∃ h, 2 ^ h ≤ c - 1 ∧ c - 1 < 2 ^ (h + 1) :=
    ⟨Nat.log2 (c - 1), Nat.log2_self_le (by omega), Nat.lt_log2_self⟩
  have hthree : 3 ≤ h := by
    by_contra hsmall
    have : 2 ^ (h + 1) ≤ 2 ^ 3 := Nat.pow_le_pow_right (by decide) (by omega)
    omega
  by_cases hmissing : ∃ j, 3 ≤ j ∧ j < h ∧ (c - 1).testBit j = false
  · obtain ⟨j, hj, hlt, hbit⟩ := hmissing
    refine .inr (.inl ⟨j, hj, ?_, hbit⟩)
    have hdouble : 2 ^ (j + 1) ≤ 2 ^ h := Nat.pow_le_pow_right (by decide) (by omega)
    have height : 2 ^ 3 ≤ 2 ^ j := Nat.pow_le_pow_right (by decide) hj
    rw [pow_succ] at hdouble
    omega
  · have hall : (c - 1) / 2 ^ 3 = 2 ^ (h - 2) - 1 := by
      apply Nat.eq_of_testBit_eq
      intro i
      rw [Nat.testBit_div_two_pow, Nat.testBit_two_pow_sub_one]
      by_cases hi : i < h - 2
      · rw [decide_eq_true hi]
        by_cases htop : i + 3 = h
        · rw [htop]
          exact Nat.testBit_of_two_pow_le_and_two_pow_add_one_gt hlow hhigh
        · by_contra hbit
          exact hmissing ⟨i + 3, by omega, by omega, Bool.not_eq_true _ ▸ hbit⟩
      · rw [decide_eq_false hi]
        exact Nat.testBit_lt_two_pow (Nat.lt_of_lt_of_le hhigh (Nat.pow_le_pow_right (by decide) (by omega)))
    have hpow : 2 ^ (h + 1) = 8 * 2 ^ (h - 2) := by
      rw [show h + 1 = 3 + (h - 2) by omega, pow_add]
      rfl
    have hpos := Nat.two_pow_pos (h - 2)
    by_cases htwo : c = 2 ^ (h + 1)
    · exact .inl ⟨h + 1, htwo⟩
    exact .inr (.inr ⟨h + 1, by omega, by omega, by omega⟩)

section Unsafe

variable {length least : Int} {c : Nat} {buf : ManyToOne} (lo : 0 ≤ length) (hi : length < 2147483648)
  (hinit : init ⟨fun _ => 0, length⟩ = .ok buf)

include lo hi hinit

/-- Two messages of -8 bytes are put at the same place. -/
theorem not_safe_negative (hleast : least ≤ -8) : ¬ Safe length least := by
  intro hsafe
  obtain ⟨wf, _, hat⟩ := fresh_at lo hi hinit
  have hpos := wf.capacity_pos
  have hstart : buf.positionIndex 0 = 0 := Int.le_antisymm (positionIndex_le wf (p := 0) (by decide))
    (positionIndex_range wf 0).1
  obtain ⟨index, _, cached, padding, m, hfirst, claim, hat₁⟩ := send_blank (.inr rfl) hleast wf hat (by decide) (by omega)
    (.inl (by omega))
  obtain ⟨rfl, rfl⟩ : padding = 0 ∧ index = 0 := by
    have hplace := claim.place
    omega
  have hlater := claim.later
  obtain ⟨index, _, _, padding, m', hsecond, claim', _⟩ := send_blank (.inr rfl) hleast (wf.withBytes m) hat₁ (by omega)
    (show _ ≤ 0 + buf.capacity by omega) (.inl (show buf.positionIndex 0 + _ ≤ buf.capacity by omega))
  obtain ⟨rfl, rfl⟩ : padding = 0 ∧ index = 0 := by
    have hplace : (padding = 0 ∧ index = buf.positionIndex 0 ∧ _) ∨ (_ ∧ buf.capacity < buf.positionIndex 0 + 0 ∧ _) :=
      claim'.place
    omega
  rw [if_pos rfl] at hfirst hsecond
  exact absurd (hsafe _ _ _ (.fresh hinit) (hfirst.append hsecond)).2 (by decide)

variable (hzero : least ≤ 0) (hc : length - 768 = c)

include hzero hc

/-- A position with a single bit that the mask does not have is where the ring starts. -/
theorem not_safe_missing_bit {j : Nat} (hj : 3 ≤ j) (hroom : 2 ^ j + 8 ≤ c) (hbit : (c - 1).testBit j = false) :
    ¬ Safe length least := by
  intro hsafe
  obtain ⟨wf, hcapacity, hat⟩ := fresh_at lo hi hinit
  have hpow : 8 * 2 ^ (j - 3) = 2 ^ j := by
    rw [show (8 : Nat) = 2 ^ 3 by rfl, ← pow_add, Nat.add_sub_cancel' hj]
  obtain ⟨m, hrun, _⟩ := written_from_fresh hzero wf hat (2 ^ (j - 3) + 1) (by omega)
  have hapart := List.pairwise_iff_getElem.mp (hsafe _ _ _ (.fresh hinit) hrun).2 0 (2 ^ (j - 3))
    (by rw [List.length_map, List.length_range]; exact Nat.succ_pos _)
    (by rw [List.length_map, List.length_range]; exact Nat.lt_succ_self _) (Nat.two_pow_pos _)
  have hmask : (buf.capacity - 1).toNat = c - 1 := by omega
  have hfirst : buf.positionIndex ((8 * 0 : Nat) : Int) = 0 := by
    rw [positionIndex_nat wf (by decide), Nat.zero_and]
    rfl
  have hagain : buf.positionIndex ((8 * 2 ^ (j - 3) : Nat) : Int) = 0 := by
    rw [positionIndex_nat wf (by omega), hmask, hpow, Nat.and_comm, Nat.and_two_pow, hbit]
    simp
  simp only [List.getElem_map, List.getElem_range, hfirst, hagain] at hapart
  exact absurd hapart (by decide)

/-- Just below a power of two the padding at the end is shorter than its header. -/
theorem not_safe_below_pow {j : Nat} (hj : 4 ≤ j) (hlt : c < 2 ^ j) (hle : 2 ^ j ≤ c + 7) : ¬ Safe length least := by
  intro hsafe
  obtain ⟨wf, hcapacity, hat⟩ := fresh_at lo hi hinit
  have hpow : 2 ^ j = 8 * 2 ^ (j - 3) := by
    rw [show (8 : Nat) = 2 ^ 3 by rfl, ← pow_add, Nat.add_sub_cancel' (by omega)]
  have hlarge : 2 ^ 4 ≤ 2 ^ j := Nat.pow_le_pow_right (by decide) hj
  have hmask : (buf.capacity - 1).toNat = c - 1 := by omega
  -- the last place of eight bytes
  obtain ⟨p, hp⟩ : ∃ p, 2 ^ j = 8 * p + 8 := ⟨2 ^ (j - 3) - 1, by omega⟩
  have hlast : buf.positionIndex ((8 * p : Nat) : Int) = ((8 * p : Nat) : Int) := by
    have hhigh : (8 * p &&& (c - 1)) / 2 ^ 3 = p := by
      rw [Nat.and_div_two_pow, Nat.mul_div_cancel_left _ (by decide), show (c - 1) / 2 ^ 3 = p by omega, Nat.and_self]
    have hle : 8 * p &&& (c - 1) ≤ 8 * p := Nat.and_le_left
    rw [positionIndex_nat wf (by omega), hmask]
    omega
  obtain ⟨m, hrun, hfull⟩ := written_from_fresh hzero wf hat p (by omega)
  obtain ⟨m₀, hreached, hempty⟩ := consume_all (wf.withBytes m) hfull (by omega) (Reached.written (.fresh hinit) hrun)
  rw [withBytes_withBytes] at hreached hempty
  obtain ⟨regions, buf', hwritten, r, hr, houtside⟩ := padding_outside hzero (wf.withBytes m₀) hempty (by omega)
    (by rw [withBytes_positionIndex, hlast]; omega) (by rw [withBytes_positionIndex, withBytes_capacity, hlast]; omega)
  rw [withBytes_capacity, hcapacity] at houtside
  exact houtside ((hsafe _ _ _ hreached hwritten).1 r hr)

end Unsafe

/-- **Which rings are safe**, for messages of `least` bytes or more: none for messages of -8 bytes; otherwise those with a
capacity that is a power of two, and those that no record fits in. -/
theorem safe_iff {length least : Int} (lo : 0 ≤ length) (hi : length < 2147483648) (hleast : least ≤ 0) {buf : ManyToOne}
    (hinit : init ⟨fun _ => 0, length⟩ = .ok buf) :
    Safe length least ↔
      -8 < least ∧ (length - trailerLength < 8 ∨ ∃ k : Nat, length - trailerLength = 2 ^ k) := by
  obtain ⟨wf, hcapacity, _⟩ := fresh_at lo hi hinit
  have hpos := wf.capacity_pos
  rw [trailerLength]
  constructor
  · intro hsafe
    refine ⟨Int.not_le.mp fun hnegative => not_safe_negative lo hi hinit hnegative hsafe, ?_⟩
    by_contra hother
    obtain ⟨hlarge, hpow⟩ := not_or.mp hother
    obtain ⟨c, hc⟩ : ∃ c : Nat, length - 768 = c := ⟨(length - 768).toNat, by omega⟩
    have height : c ≠ 8 := fun height => hpow ⟨3, by omega⟩
    rcases capacity_cases (show 9 ≤ c by omega) with ⟨k, rfl⟩ | ⟨j, hj, hroom, hbit⟩ | ⟨j, hj, hlt, hle⟩
    · exact hpow ⟨k, by rw [hc]; norm_num⟩
    · exact not_safe_missing_bit lo hi hinit hleast hc hj hroom hbit hsafe
    · exact not_safe_below_pow lo hi hinit hleast hc hj hlt hle hsafe
  · rintro ⟨hlo, hsmall | ⟨k, hk⟩⟩
    · exact safe_small lo hlo (by omega) hsmall
    · by_cases hthree : 3 ≤ k
      · exact safe_pow lo hi hlo hthree hk
      · have hless : (2 : Int) ^ k < 2 ^ 3 := pow_lt_pow_right₀ (by norm_num) (by omega)
        exact safe_small lo hlo (by omega) (by omega)

/-- A capacity of 1024, with records that wrap, for all messages that are none of -8 bytes. -/
theorem safe_iff_kilobyte : Safe 1792 (-7) ∧ ¬ Safe 1792 (-8) := by
  have hinit : ∃ buf, init ⟨fun _ => 0, 1792⟩ = .ok buf := ⟨_, rfl⟩
  obtain ⟨buf, hinit⟩ := hinit
  refine ⟨(safe_iff (by decide) (by decide) (by decide) hinit).mpr ⟨by decide, .inr ⟨10, by decide⟩⟩, fun hsafe => ?_⟩
  exact absurd ((safe_iff (by decide) (by decide) (by decide) hinit).mp hsafe).1 (by decide)

/-- A capacity of 24 is accepted, and the second record is written over the first: `8 & 23` is zero. -/
theorem accepted_not_safe : (∃ buf, init ⟨fun _ => 0, 792⟩ = .ok buf) ∧ ¬ Safe 792 0 := by
  have hinit : ∃ buf, init ⟨fun _ => 0, 792⟩ = .ok buf := ⟨_, rfl⟩
  obtain ⟨buf, hbuf⟩ := hinit
  exact ⟨⟨buf, hbuf⟩, not_safe_missing_bit (by decide) (by decide) hbuf (by decide) (c := 24) (by decide) (j := 3) (by decide)
    (by decide) (by decide)⟩

end AeronGo.RingBuffer.ManyToOne
