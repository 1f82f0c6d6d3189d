import AeronGo.RingBuffer.ManyToOne
import AeronGo.Laws.Atomic.Buffer
import AeronGo.Laws.Util.Bits
import Mathlib.Tactic.Linarith

/-!
# Laws of the ring

The positions are 64-bit words; a law speaks of the positions that they stand for, which are not bounded
(`At`). A claim either finds no room, and then at most the cached position of the consumer is newer than before, or
moves the tail over the record and over what is skipped at the end of the buffer (`Claim`).
-/

namespace AeronGo.RingBuffer.ManyToOne

open Machine Atomic Util

/-- What `Init` sets up. -/
structure WellFormed (buf : ManyToOne) : Prop where
  capacity_pos : 0 < buf.capacity
  length_eq : buf.buffer.length = buf.capacity + 768
  length_lt : buf.buffer.length < 2147483648
  maxMsgLength_eq : buf.maxMsgLength = buf.capacity / 8
  tailIndex_eq : buf.tailPositionIndex = buf.capacity + 128
  cacheIndex_eq : buf.headCachePositionIndex = buf.capacity + 256
  headIndex_eq : buf.headPositionIndex = buf.capacity + 384
  idIndex_eq : buf.correlationIDCounterIndex = buf.capacity + 512

theorem init_ok {buffer : Buffer} (lo : 0 ≤ buffer.length) (hi : buffer.length < 2147483648) {buf : ManyToOne}
    (h : init buffer = .ok buf) :
    buf.WellFormed ∧ buf.buffer = buffer ∧ buf.capacity = buffer.length - 768 := by
  have hcapacity : i32 (buffer.length - trailerLength) = buffer.length - 768 := i32_eq (by unfold trailerLength; omega)
  rw [init, hcapacity] at h
  split at h
  · cases h
  next hpos =>
    cases h
    refine ⟨⟨?_, ?_, hi, rfl, ?_, ?_, ?_, ?_⟩, rfl, rfl⟩ <;> dsimp only
    · omega
    · omega
    all_goals exact i32_eq (by omega)

/-- The ring with other bytes. -/
def withBytes (buf : ManyToOne) (m : Memory) : ManyToOne := { buf with buffer := { buf.buffer with bytes := m } }

@[simp] theorem withBytes_capacity (buf : ManyToOne) (m : Memory) : (buf.withBytes m).capacity = buf.capacity := rfl

@[simp] theorem withBytes_bytes (buf : ManyToOne) (m : Memory) : (buf.withBytes m).buffer.bytes = m := rfl

@[simp] theorem withBytes_withBytes (buf : ManyToOne) (m m' : Memory) : (buf.withBytes m).withBytes m' = buf.withBytes m' :=
  rfl

theorem WellFormed.withBytes {buf : ManyToOne} (wf : buf.WellFormed) (m : Memory) : (buf.withBytes m).WellFormed :=
  { wf with }

/-! ## The words of the trailer -/

section Trailer

variable {buf : ManyToOne} (wf : buf.WellFormed)

include wf

/-- A word of the trailer. -/
theorem WellFormed.get {index offset : Int} (hindex : index = buf.capacity + offset) (lo : 0 ≤ offset) (hi : offset ≤ 760) :
    buf.buffer.getInt64 index = .ok (getInt64 buf.buffer.bytes (buf.capacity + offset)) := by
  have hpos := wf.capacity_pos
  have hlength := wf.length_eq
  rw [hindex, Buffer.getInt64_within wf.length_lt (by omega) (by omega)]

/-- A store of a word, in the records or in the trailer. -/
theorem WellFormed.put {index : Int} (lo : 0 ≤ index) (hi : index ≤ buf.capacity + 760) (value : Int) :
    buf.buffer.putInt64 index value = .ok { buf.buffer with bytes := Machine.put 8 buf.buffer.bytes index value } := by
  have hlength := wf.length_eq
  exact Buffer.putInt64_within wf.length_lt lo (by omega) value

end Trailer

/-! ## Positions -/

/-- The positions that the words of the trailer stand for: the consumer's as it was cached, its own, and the
producers'. -/
structure At (buf : ManyToOne) (cached head tail : Int) : Prop where
  cache_word : getInt64 buf.buffer.bytes (buf.capacity + 256) = i64 cached
  head_word : getInt64 buf.buffer.bytes (buf.capacity + 384) = i64 head
  tail_word : getInt64 buf.buffer.bytes (buf.capacity + 128) = i64 tail
  cached_le : cached ≤ head
  head_le : head ≤ tail

section Positions

variable {buf : ManyToOne} {cached head tail : Int}

/-- The positions do not depend on the rest of the buffer. -/
theorem At.congr (h : At buf cached head tail) {m : Memory}
    (hm : ∀ a, buf.capacity + 128 ≤ a → a < buf.capacity + 392 → m a = buf.buffer.bytes a) :
    At (buf.withBytes m) cached head tail := by
  refine ⟨?_, ?_, ?_, h.cached_le, h.head_le⟩
  · exact (getInt64_congr fun i lo hi => hm i (by simp at lo; omega) (by simp at hi; omega)).trans h.cache_word
  · exact (getInt64_congr fun i lo hi => hm i (by simp at lo; omega) (by simp at hi; omega)).trans h.head_word
  · exact (getInt64_congr fun i lo hi => hm i (by simp at lo; omega) (by simp at hi; omega)).trans h.tail_word

/-- A difference of words is the difference of the positions, if that is small. -/
theorem i32_i64_sub (h : cached ≤ tail) (hnear : tail - cached < 2147483648) :
    i32 (i64 (i64 tail - i64 cached)) = tail - cached := by
  have hdiff : i64 (i64 tail - i64 cached) = tail - cached := by
    simp only [i64]
    omega
  rw [hdiff, i32_eq (by omega)]

/-- An id is taken from the counter, and the positions stay. -/
theorem nextCorrelationID_at (wf : buf.WellFormed) (h : At buf cached head tail) :
    ∃ id m, buf.nextCorrelationID = .ok (id, buf.withBytes m) ∧ At (buf.withBytes m) cached head tail := by
  have hid := wf.idIndex_eq
  have hpos := wf.capacity_pos
  rw [nextCorrelationID, wf.get hid (by decide) (by decide), ok_bind, wf.put (by omega) (by omega), ok_bind]
  exact ⟨_, _, rfl, h.congr fun a _ hhi => put_of_outside (.inl (by omega))⟩

/-- Addresses that a claim does not touch, but for padding. -/
def Untouched (capacity a : Int) : Prop :=
  a < capacity + 128 ∨ (capacity + 136 ≤ a ∧ a < capacity + 256) ∨ capacity + 264 ≤ a

/-! ## A claim -/

/-- The position of the consumer that a claim goes on with. -/
theorem headWith_at (wf : buf.WellFormed) (h : At buf cached head tail) (enough : Int → Bool) :
    (∃ cached' m, buf.headWith enough (i64 cached) = .ok (some (i64 cached'), buf.withBytes m) ∧
      At (buf.withBytes m) cached' head tail ∧ cached ≤ cached' ∧ enough (i64 cached') ∧
      ∀ a, Untouched buf.capacity a → m a = buf.buffer.bytes a) ∨
    (buf.headWith enough (i64 cached) = .ok (none, buf) ∧ enough (i64 head) = false) := by
  have hlength := wf.length_eq
  have hpos := wf.capacity_pos
  by_cases hcached : enough (i64 cached) = true
  · refine .inl ⟨cached, buf.buffer.bytes, ?_, h, Int.le_refl _, hcached, fun _ _ => rfl⟩
    rw [headWith, if_pos hcached]
    rfl
  have hcache := wf.cacheIndex_eq
  rw [headWith, if_neg hcached, wf.get wf.headIndex_eq (by decide) (by decide), ok_bind, h.head_word]
  by_cases hhead : enough (i64 head) = true
  · rw [if_pos hhead, wf.put (by omega) (by omega), ok_bind]
    have houtside := fun (a : Int) ha => put_of_outside (w := 8) (m := buf.buffer.bytes)
      (a := buf.headCachePositionIndex) (i := a) (v := i64 head) ha
    refine .inl ⟨head, _, rfl, ⟨?_, ?_, ?_, Int.le_refl _, h.head_le⟩, h.cached_le, hhead, ?_⟩
    · rw [withBytes_capacity, withBytes_bytes, ← hcache, getInt64_put, i64_of_I64 (i64_range head)]
    · exact (getInt64_congr fun i lo hi => houtside i (by simp at lo; omega)).trans h.head_word
    · exact (getInt64_congr fun i lo hi => houtside i (by simp at hi; omega)).trans h.tail_word
    · intro a ha
      exact houtside a (by rcases ha with ha | ha | ha <;> omega)
  · rw [if_neg hhead]
    exact .inr ⟨rfl, Bool.not_eq_true _ ▸ hhead⟩

/-- Where a position is in the buffer. -/
def positionIndex (buf : ManyToOne) (position : Int) : Int := and64 (i64 position) (buf.capacity - 1)

@[simp] theorem withBytes_positionIndex (m : Memory) (position : Int) :
    (buf.withBytes m).positionIndex position = buf.positionIndex position := rfl

theorem positionIndex_range (wf : buf.WellFormed) (position : Int) :
    0 ≤ buf.positionIndex position ∧ buf.positionIndex position < buf.capacity := by
  have hpos := wf.capacity_pos
  have hlength := wf.length_eq
  have hlt := wf.length_lt
  have hle := and64_le (i64 position) (show 0 ≤ buf.capacity - 1 by omega) (by omega)
  refine ⟨and64_nonneg _ (by omega) (by omega), ?_⟩
  rw [positionIndex]
  omega

/-- The tail is moved. -/
theorem moveTail_at (wf : buf.WellFormed) (h : At buf cached head tail) {required padding : Int} (hrequired : 0 ≤ required)
    (hpadding : 0 ≤ padding) :
    ∃ m, buf.moveTail (i64 tail) required (buf.positionIndex tail) padding =
        .ok (if padding = 0 then buf.positionIndex tail else 0, buf.withBytes m) ∧
      At (buf.withBytes m) cached head (tail + required + padding) ∧
      ∀ a, Untouched buf.capacity a →
        (padding = 0 ∨ a < buf.positionIndex tail ∨ buf.positionIndex tail + 8 ≤ a) → m a = buf.buffer.bytes a := by
  have hlength := wf.length_eq
  have hpos := wf.capacity_pos
  obtain ⟨lo, hi⟩ := positionIndex_range wf tail
  have hsum : i64 (i64 tail + required + padding) = i64 (tail + required + padding) := by
    simp only [i64]
    omega
  have htail := wf.tailIndex_eq
  have houtside := fun (a : Int) ha => put_of_outside (w := 8) (m := buf.buffer.bytes) (a := buf.tailPositionIndex)
    (i := a) (v := i64 (tail + required + padding)) ha
  have hmoved : At (buf.withBytes (put 8 buf.buffer.bytes buf.tailPositionIndex (i64 (tail + required + padding))))
      cached head (tail + required + padding) := by
    refine ⟨?_, ?_, ?_, h.cached_le, by have := h.head_le; omega⟩
    · exact (getInt64_congr fun i lo hi => houtside i (by simp at lo; omega)).trans h.cache_word
    · exact (getInt64_congr fun i lo hi => houtside i (by simp at lo; omega)).trans h.head_word
    · rw [withBytes_capacity, withBytes_bytes, ← htail, getInt64_put, i64_of_I64 (i64_range _)]
  rw [moveTail, wf.put (by omega) (by omega), ok_bind, hsum]
  by_cases hnone : padding = 0
  · rw [if_pos hnone, if_pos hnone]
    refine ⟨_, rfl, hmoved, fun a ha _ => houtside a ?_⟩
    rcases ha with ha | ha | ha <;> omega
  · have hheader := (wf.withBytes (put 8 buf.buffer.bytes buf.tailPositionIndex (i64 (tail + required + padding)))).put lo
      (show buf.positionIndex tail ≤ buf.capacity + 760 by omega) (makeHeader padding paddingMsgTypeID)
    rw [if_neg hnone, if_neg hnone]
    show ∃ m, ((buf.withBytes _).buffer.putInt64 _ _ >>= _) = _ ∧ _
    rw [hheader, ok_bind]
    refine ⟨_, rfl, hmoved.congr fun a hlo _ => put_of_outside (by simp at hlo; omega), fun a ha hskipped => ?_⟩
    rw [put_of_outside (by omega)]
    exact houtside a (by rcases ha with ha | ha | ha <;> omega)

/-- A claim that has found room. The record follows the tail, or what is left to the end of the buffer is skipped. -/
structure Claim (buf : ManyToOne) (cached head tail required index : Int) (buf' : ManyToOne) (cached' padding : Int) :
    Prop where
  positions : At buf' cached' head (tail + required + padding)
  later : cached ≤ cached'
  room : tail + required ≤ cached' + buf.capacity
  place :
    (padding = 0 ∧ index = buf.positionIndex tail ∧ buf.positionIndex tail + required ≤ buf.capacity) ∨
    (padding = buf.capacity - buf.positionIndex tail ∧ buf.capacity < buf.positionIndex tail + required ∧ index = 0 ∧
      required ≤ buf.positionIndex cached')
  kept : ∀ a, Untouched buf.capacity a →
    (padding = 0 ∨ a < buf.positionIndex tail ∨ buf.positionIndex tail + 8 ≤ a) → buf'.buffer.bytes a = buf.buffer.bytes a

/-- There is no room for a record. -/
def Full (buf : ManyToOne) (head tail required : Int) : Prop :=
  head + buf.capacity < tail + required ∨
    (buf.capacity < buf.positionIndex tail + required ∧ buf.positionIndex head < required)

/-- **`claimCapacity`.** -/
theorem claimCapacity_at (wf : buf.WellFormed) (h : At buf cached head tail) (hnear : tail - cached < 2147483648)
    {required : Int} (hrequired : 0 ≤ required) :
    (∃ cached' m, buf.claimCapacity required = .ok (insufficientCapacity, buf.withBytes m) ∧ Full buf head tail required ∧
      At (buf.withBytes m) cached' head tail ∧ cached ≤ cached' ∧
      ∀ a, Untouched buf.capacity a → m a = buf.buffer.bytes a) ∨
    ∃ index m cached' padding, buf.claimCapacity required = .ok (index, buf.withBytes m) ∧
      Claim buf cached head tail required index (buf.withBytes m) cached' padding := by
  have hpos := wf.capacity_pos
  have hlength := wf.length_eq
  have hlt := wf.length_lt
  have hmask : i32 (buf.capacity - 1) = buf.capacity - 1 := i32_eq (by omega)
  have hle := Int.le_trans h.cached_le h.head_le
  obtain ⟨lo, hi⟩ := positionIndex_range wf tail
  -- the room that a position of the consumer leaves
  have hroom : ∀ {p}, cached ≤ p → p ≤ tail →
      i32 (buf.capacity - i32 (i64 (i64 tail - i64 p))) = buf.capacity - (tail - p) := by
    intro p hcached htail
    rw [i32_i64_sub htail (by omega)]
    exact i32_eq (by omega)
  have hindex : ∀ p, i32 (and64 (i64 p) (buf.capacity - 1)) = buf.positionIndex p := by
    intro p
    obtain ⟨hlo, hhi⟩ := positionIndex_range wf p
    exact i32_eq ⟨by rw [positionIndex] at hlo; omega, by rw [positionIndex] at hhi; omega⟩
  have hend : i32 (buf.capacity - buf.positionIndex tail) = buf.capacity - buf.positionIndex tail :=
    i32_eq (by omega)
  rw [claimCapacity, hmask, wf.get wf.cacheIndex_eq (by decide) (by decide), ok_bind,
    wf.get wf.tailIndex_eq (by decide) (by decide), ok_bind, h.cache_word, h.tail_word]
  rcases headWith_at wf h (fun head => required ≤ i32 (buf.capacity - i32 (i64 (i64 tail - head)))) with
    ⟨cached₁, m₁, hfirst, h₁, hlater₁, henough₁, hkept₁⟩ | ⟨hfirst, hfull⟩
  · have hroom₁ := of_decide_eq_true henough₁
    rw [hroom hlater₁ (Int.le_trans h₁.cached_le h₁.head_le)] at hroom₁
    rw [hfirst, ok_bind]
    simp only [hindex, withBytes_capacity, hend]
    have wf₁ := wf.withBytes m₁
    by_cases hfits : required ≤ buf.capacity - buf.positionIndex tail
    · obtain ⟨m, hmove, hmoved, hkept⟩ := moveTail_at wf₁ h₁ hrequired (Int.le_refl 0)
      rw [if_pos hfits]
      refine .inr ⟨_, m, cached₁, 0, hmove, hmoved, hlater₁, by omega, .inl ⟨rfl, rfl, by omega⟩, ?_⟩
      intro a ha _
      exact (hkept a ha (.inl rfl)).trans (hkept₁ a ha)
    · rw [if_neg hfits]
      rcases headWith_at wf₁ h₁ (fun head => required ≤ i32 (and64 head (buf.capacity - 1))) with
        ⟨cached₂, m₂, hsecond, h₂, hlater₂, henough₂, hkept₂⟩ | ⟨hsecond, hfull⟩
      · have hroom₂ := of_decide_eq_true henough₂
        rw [hindex] at hroom₂
        obtain ⟨m, hmove, hmoved, hkept⟩ := moveTail_at (wf₁.withBytes m₂) h₂ hrequired
          (show 0 ≤ buf.capacity - buf.positionIndex tail by omega)
        rw [hsecond, ok_bind]
        refine .inr ⟨_, m, cached₂, buf.capacity - buf.positionIndex tail, hmove, hmoved, by omega, by omega, ?_, ?_⟩
        · exact .inr ⟨rfl, by omega, if_neg (by omega), hroom₂⟩
        · intro a ha hskipped
          exact (hkept a ha hskipped).trans ((hkept₂ a ha).trans (hkept₁ a ha))
      · have hfull := of_decide_eq_false hfull
        rw [hindex] at hfull
        rw [hsecond, ok_bind]
        exact .inl ⟨cached₁, m₁, rfl, .inr ⟨by omega, Int.not_le.mp hfull⟩, h₁, hlater₁, hkept₁⟩
  · have hfull := of_decide_eq_false hfull
    rw [hroom h.cached_le h.head_le] at hfull
    rw [hfirst, ok_bind]
    exact .inl ⟨cached, buf.buffer.bytes, rfl, .inl (by omega), h, Int.le_refl _, fun _ _ => rfl⟩

end Positions

/-! ## A record -/

/-- The bytes of a record, from the length to the end of the message. -/
def recordBytes (recordLength msgTypeID : Int) (message : List UInt8) : List UInt8 :=
  leBytes 4 recordLength ++ leBytes 4 msgTypeID ++ message

theorem length_recordBytes (recordLength msgTypeID : Int) (message : List UInt8) :
    (recordBytes recordLength msgTypeID message).length = message.length + 8 := by
  rw [recordBytes, List.length_append, List.length_append, length_leBytes, length_leBytes]
  omega

theorem leBytes_makeHeader (length msgTypeID : Int) :
    leBytes 8 (makeHeader length msgTypeID) = leBytes 4 length ++ leBytes 4 msgTypeID := by
  have hword : ∀ x : Int, leBytes 8 (i64 x) = leBytes 8 x := by
    intro x
    have hx : i64 x = x + 256 ^ 8 * -((x + 9223372036854775808) / 18446744073709551616) := by
      rw [i64]
      norm_num
      omega
    rw [hx, leBytes_add_mul]
  have hhalf : ∀ x : Int, leBytes 4 (x % 4294967296) = leBytes 4 x := by
    intro x
    have hx : x % 4294967296 = x + 256 ^ 4 * -(x / 4294967296) := by
      norm_num
      omega
    rw [hx, leBytes_add_mul]
  rw [makeHeader, hword, leBytes_append 4 4, Int.add_comm, Int.mul_comm]
  congr 1
  · exact (leBytes_add_mul 4 _ _).trans (hhalf length)
  · have hhigh : (length % 4294967296 + 4294967296 * (msgTypeID % 4294967296)) / 256 ^ 4 = msgTypeID % 4294967296 := by
      norm_num
      omega
    rw [hhigh, hhalf]

theorem requiredCapacity_eq {length : Int} (lo : -8 ≤ length) (hi : length ≤ 2147483632) :
    requiredCapacity length = (length + 15) / 8 * 8 := by
  have hlength : i32 (length + headerLength) = length + 8 := i32_eq (by unfold headerLength; omega)
  have halign := alignInt32_pow (k := 3) (by decide) (show -2147483648 ≤ length + 8 by omega) (by norm_num; omega)
  norm_num at halign
  rw [requiredCapacity, hlength, recordAlignment, halign, Int.add_assoc]
  norm_num

section Record

variable {buf : ManyToOne} {index msgTypeID srcIndex length : Int} {srcBuffer : Buffer}

/-- A record is put where it was claimed. Of a message with a negative length only the header is put. -/
theorem putRecord_ok (wf : buf.WellFormed) (lo : 0 ≤ index) (hlength : -8 ≤ length)
    (hin : index + 8 + length ≤ buf.capacity) (hsource : boundsCheck srcIndex length srcBuffer.length = .ok ()) :
    buf.putRecord index msgTypeID srcBuffer srcIndex length = .ok (buf.withBytes
      (Machine.write buf.buffer.bytes index
        (recordBytes (length + 8) msgTypeID (read srcBuffer.bytes srcIndex length.toNat)))) := by
  have hcapacity := wf.length_eq
  have hlt := wf.length_lt
  have hrecord : i32 (length + headerLength) = length + 8 := i32_eq (by unfold headerLength; omega)
  have hmessage : encodedMsgOffset index = index + 8 := i32_eq (by unfold headerLength; omega)
  have hcommit : ∀ m, Buffer.putInt32 ⟨m, buf.buffer.length⟩ index (length + 8) =
      .ok ⟨put 4 m index (length + 8), buf.buffer.length⟩ := fun m =>
    Buffer.putInt32_within (b := ⟨m, buf.buffer.length⟩) hlt lo (show index + 4 ≤ buf.buffer.length by omega) _
  rw [putRecord, hrecord, wf.put lo (by omega), ok_bind, hmessage]
  simp only [Buffer.putBytes, hsource]
  rw [boundsCheck_ok (by omega) (by omega) (by omega) hlt, ok_bind, ok_bind, memcpy_eq, pure_bind, lengthOffset,
    hcommit, ok_bind]
  -- the length is put last, over the negative one of the header
  have hbytes : put 4 (Machine.write (put 8 buf.buffer.bytes index (makeHeader (i32 (-(length + 8))) msgTypeID)) (index + 8)
        (read srcBuffer.bytes srcIndex length.toNat)) index (length + 8) =
      Machine.write buf.buffer.bytes index
        (recordBytes (length + 8) msgTypeID (read srcBuffer.bytes srcIndex length.toNat)) := by
    have hheader := leBytes_makeHeader (i32 (-(length + 8))) msgTypeID
    have height : index + 8 = index + (leBytes 8 (makeHeader (i32 (-(length + 8))) msgTypeID)).length := by
      rw [length_leBytes]
      rfl
    rw [put, put, height, ← write_append, hheader, List.append_assoc, write_front _ _ _ (by simp only [length_leBytes]),
      recordBytes, List.append_assoc]
  rw [← hbytes]
  rfl

theorem Claim.range (wf : buf.WellFormed) {cached head tail required cached' padding : Int} {buf' : ManyToOne}
    (h : Claim buf cached head tail required index buf' cached' padding) :
    0 ≤ index ∧ index + required ≤ buf.capacity := by
  rcases h.place with ⟨_, rfl, hfits⟩ | ⟨_, _, rfl, hfits⟩
  · exact ⟨(positionIndex_range wf tail).1, hfits⟩
  · have hlt := (positionIndex_range wf cached').2
    omega

variable {cached head tail : Int}

/-- A message for the ring: its type and its length are accepted, and its source passes the check. A length below zero is
accepted as well; from -8 on its record still claims no negative space. -/
structure Message (buf : ManyToOne) (msgTypeID : Int) (srcBuffer : Buffer) (srcIndex length : Int) : Prop where
  type_pos : 1 ≤ msgTypeID
  length_ge : -8 ≤ length
  length_le : length ≤ buf.maxMsgLength
  source : boundsCheck srcIndex length srcBuffer.length = .ok ()

/-- **`Write`**: it finds no room, or puts the record where it was claimed. -/
theorem write_at (wf : buf.WellFormed) (h : At buf cached head tail) (hnear : tail - cached < 2147483648)
    (hmsg : Message buf msgTypeID srcBuffer srcIndex length) :
    (∃ cached' m, buf.claimCapacity (requiredCapacity length) = .ok (insufficientCapacity, buf.withBytes m) ∧
      buf.write msgTypeID srcBuffer srcIndex length = .ok (false, buf.withBytes m) ∧
      Full buf head tail (requiredCapacity length) ∧ At (buf.withBytes m) cached' head tail ∧ cached ≤ cached' ∧
      ∀ a, Untouched buf.capacity a → m a = buf.buffer.bytes a) ∨
    ∃ index m cached' padding, buf.claimCapacity (requiredCapacity length) = .ok (index, buf.withBytes m) ∧
      Claim buf cached head tail (requiredCapacity length) index (buf.withBytes m) cached' padding ∧
      buf.write msgTypeID srcBuffer srcIndex length = .ok (true, buf.withBytes
        (Machine.write m index (recordBytes (length + 8) msgTypeID (read srcBuffer.bytes srcIndex length.toNat)))) := by
  have hpos := wf.capacity_pos
  have hbound := hmsg.length_le
  have hlt := wf.length_lt
  have hcapacity := wf.length_eq
  rw [wf.maxMsgLength_eq] at hbound
  have hlo := hmsg.length_ge
  have hrequired := requiredCapacity_eq hlo (by omega)
  rw [write, checkMsgTypeID, if_neg (Int.not_lt.mpr hmsg.type_pos), ok_bind, checkMsgLength,
    if_neg (Int.not_lt.mpr hmsg.length_le), ok_bind]
  rcases claimCapacity_at wf h hnear (show 0 ≤ requiredCapacity length by omega) with
    ⟨cached', m, hclaim, hfull, hat, hlater, hkept⟩ | ⟨index, m, cached', padding, hclaim, claim⟩
  · refine .inl ⟨cached', m, hclaim, ?_, hfull, hat, hlater, hkept⟩
    rw [hclaim, ok_bind]
    rfl
  · obtain ⟨hindex, hend⟩ := claim.range wf
    refine .inr ⟨index, m, cached', padding, hclaim, claim, ?_⟩
    have hfound : index ≠ insufficientCapacity := by
      rintro rfl
      exact absurd hindex (by decide)
    rw [hclaim, ok_bind]
    dsimp only
    rw [if_neg hfound, putRecord_ok (wf.withBytes m) hindex hlo (by rw [withBytes_capacity]; omega) hmsg.source, ok_bind]
    rfl

/-- What `Write` has accepted is a message. -/
theorem message_of_write {buf' : ManyToOne} (hlo : -8 ≤ length)
    (h : buf.write msgTypeID srcBuffer srcIndex length = .ok (true, buf')) :
    Message buf msgTypeID srcBuffer srcIndex length := by
  rw [write] at h
  obtain ⟨_, htype, h⟩ := ok_of_bind h
  obtain ⟨_, hlength, h⟩ := ok_of_bind h
  obtain ⟨⟨index, buf₁⟩, _, h⟩ := ok_of_bind h
  rw [checkMsgTypeID] at htype
  rw [checkMsgLength] at hlength
  split at htype
  · cases htype
  split at hlength
  · cases hlength
  next hpos hle =>
    refine ⟨Int.not_lt.mp hpos, hlo, Int.not_lt.mp hle, ?_⟩
    dsimp only at h
    split at h
    · cases h
    obtain ⟨buf₂, hput, _⟩ := ok_of_bind h
    rw [putRecord] at hput
    obtain ⟨buffer₁, _, hput⟩ := ok_of_bind hput
    obtain ⟨buffer₂, hbytes, _⟩ := ok_of_bind hput
    rw [Buffer.putBytes] at hbytes
    obtain ⟨_, _, hbytes⟩ := ok_of_bind hbytes
    obtain ⟨_, hsource, _⟩ := ok_of_bind hbytes
    exact hsource

end Record

end AeronGo.RingBuffer.ManyToOne
