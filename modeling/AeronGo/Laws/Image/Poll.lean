import AeronGo.Image
import AeronGo.Laws.LogBuffer.Reader

/-!
# Laws of polling

The image finds the term and the offset of its position (`indexByPosition_eq`, `termOffset_eq`), so a poll is the
handler's fold over the slots that are passed from there to the end of the term (`poll_eq`), and a bounded poll the
same up to the limit that its 32-bit arithmetic gives (`boundedPoll_eq`). The log stays as it is during a poll; what
is published meanwhile is left to the next.
-/

namespace AeronGo.Image

open Machine Util Atomic LogBuffer

variable {σ : Type} {p : LogParams} {termBuffers : Int → Buffer} {sessionId position : Int} {slots : List Slot}

theorem termOffset_eq (p : LogParams) (position : Int) : termOffset p position = position % p.termLength := by
  have hbits := p.bits_le
  have hdvd : p.termLength ∣ 4294967296 := by
    rw [show (4294967296 : Int) = 2 ^ 32 from by norm_num]
    exact pow_dvd_pow 2 (by omega)
  obtain ⟨q, hq⟩ : ∃ q, i32 position = position + 4294967296 * q :=
    ⟨-((position + 2147483648) / 4294967296), by unfold i32; omega⟩
  have hmask := and32_mask (k := p.bits) (by omega) (i32 position)
  rw [termOffset, LogParams.termLength, hmask, ← LogParams.termLength, hq]
  exact Int.emod_eq_emod_iff_emod_sub_eq_zero.mpr
    (by rw [add_sub_cancel_left]; exact Int.emod_eq_zero_of_dvd (hdvd.mul_right q))

theorem indexByPosition_eq (p : LogParams) {position : Int} (lo : 0 ≤ position)
    (hi : position ≤ p.maxPossiblePosition) :
    indexByPosition p position = .ok (position / p.termLength % 3) := by
  have hge := p.termLength_ge
  have hle := p.termLength_le
  rw [p.maxPossiblePosition_eq] at hi
  obtain ⟨n, rfl⟩ := Int.eq_ofNat_of_zero_le lo
  have hword : ((n : Int) % 18446744073709551616).toNat = n := by omega
  have hterm : p.termLength = ((2 ^ p.bits : Nat) : Int) := by
    unfold LogParams.termLength
    push_cast
    rfl
  have hlt : n / 2 ^ p.bits < 4294967296 := by
    rw [Nat.div_lt_iff_lt_mul (Nat.two_pow_pos _)]
    zify
    rw [hterm] at hi hge
    push_cast at hi hge
    linarith
  rw [indexByPosition, hword, p.positionBitsToShift_eq, Int.toNat_natCast, Nat.shiftRight_eq_div_pow,
    fastMod3_eq hlt, hterm]
  simp

/-- **Partition selection.** The folds of a 32-bit value stay in the table, so `FastMod3` is its
remainder; the image then reads a position of the stream in the partition that the publisher gives to
its term count. -/
theorem partition_selected :
    (∀ v : Nat, v < 4294967296 →
      fold 16 0xFFFF v ≤ 0x1FFFE ∧ fold 8 0x00FF (fold 16 0xFFFF v) ≤ 0x2FD ∧
        fold 4 0x000F (fold 8 0x00FF (fold 16 0xFFFF v)) < fastMod3Table.length ∧
        fastMod3 v = some ((v % 3 : Nat) : Int)) ∧
      ∀ (p : LogParams) (position : Int), 0 ≤ position → position < p.termLength * 2147483648 →
        indexByPosition p position = .ok (position / p.termLength % 3) ∧
          indexByTermCount (position / p.termLength) = position / p.termLength % 3 := by
  constructor
  · intro v hv
    obtain ⟨h16, h8, h4, -⟩ := fold_bounds hv
    exact ⟨h16, h8, Nat.lt_succ_of_le h4, fastMod3_eq hv⟩
  · intro p position lo hi
    have hcount : 0 ≤ position / p.termLength :=
      Int.ediv_nonneg lo (Int.le_trans (by decide) p.termLength_ge)
    refine ⟨indexByPosition_eq p lo ?_, Int.tmod_eq_emod_of_nonneg hcount⟩
    rw [p.maxPossiblePosition_eq]
    exact Int.le_of_lt hi

/-- The largest 32-bit value, and the last position of the smallest terms. -/
theorem partition_selected_last :
    fastMod3 4294967295 = some 0 ∧ indexByPosition .smallest (65536 * 2147483648 - 1) = .ok 1 :=
  ⟨(partition_selected.1 4294967295 (by decide)).2.2.2,
    (partition_selected.2 .smallest (65536 * 2147483648 - 1) (by decide) (by decide)).1⟩

/-! ## A row at the position -/

/-- The stream position where a position's term begins. -/
def termBegin (p : LogParams) (position : Int) : Int := position - position % p.termLength

/-- The stream position where a position's term ends. -/
def termEnd (p : LogParams) (position : Int) : Int := termBegin p position + p.termLength

/-- The term buffer that a position lies in. -/
def bufferAt (p : LogParams) (termBuffers : Int → Buffer) (position : Int) : Buffer :=
  termBuffers (position / p.termLength % 3)

/-- The log holds a row of slots from a position on, up to the end of the position's term. -/
structure Holds (p : LogParams) (termBuffers : Int → Buffer) (sessionId position : Int)
    (slots : List Slot) : Prop where
  position_nonneg : 0 ≤ position
  position_le : position ≤ p.maxPossiblePosition
  length_eq : (bufferAt p termBuffers position).length = p.termLength
  row : Row sessionId (bufferAt p termBuffers position) (position % p.termLength) slots

/-- The memory after a frame is stored at an offset. -/
def storeFrame (m : Memory) (offset frameLength type : Int) (flags : UInt8) (payload : List UInt8) : Memory :=
  write (put 4 (putUInt8 (put 2 m (offset + 6) type) (offset + 5) flags) offset frameLength) (offset + 32) payload

/-- A message of two fragments, with padding between them. -/
def splitSlots : List Slot := [.data beginFrag [1, 2], .padding 32, .data endFrag [3]]

/-- A term that begins with it. -/
def splitTerm : Buffer where
  bytes := storeFrame (storeFrame (storeFrame (fun _ => 0) 0 34 typeData beginFrag [1, 2]) 64 32 typePad 0 [])
    96 33 typeData endFrag [3]
  length := 65536

theorem splitTerm_holds : Holds LogParams.smallest (fun _ => splitTerm) 0 0 splitSlots where
  position_nonneg := Int.le_refl 0
  position_le := by decide
  length_eq := rfl
  row :=
    { small := by unfold Addressable; decide
      offset_nonneg := by decide
      aligned := by decide
      laid := ⟨⟨by decide, by decide, by decide, by decide, by decide⟩, ⟨by decide, by decide, by decide⟩,
        ⟨by decide, by decide, by decide, by decide, by decide⟩, rfl⟩
      inside := by decide
      ends := by decide }

/-- What a poll that passes the given slots comes to: the handler is called on each fragment in order,
the count is that of the fragments, and the position moves over all of them. -/
def outcome (p : LogParams) (termBuffers : Int → Buffer) (position : Int) (handler : FragmentHandler σ)
    (st : σ) (xs : List (Int × Slot)) : Except Stop (Int × Image × σ) := do
  let st ← xs.foldlM (deliver handler (bufferAt p termBuffers position) (termBegin p position)) st
  return (fragmentCount (xs.map Prod.snd), ⟨false, position + spaceOf xs⟩, st)

/-- The slots that are passed are the first ones of the row. -/
theorem passed_isPrefix (fragmentLimit bound : Int) :
    ∀ (slots : List Slot) (position : Int),
      ∃ rest, slots = (passed fragmentLimit bound position slots).map Prod.snd ++ rest := by
  intro slots
  induction slots generalizing fragmentLimit with
  | nil => exact fun _ => ⟨[], rfl⟩
  | cons s slots ih =>
    intro position
    by_cases h : 0 < fragmentLimit ∧ readable bound (position, s) = true
    · obtain ⟨rest, hrest⟩ := ih (if s.isData then fragmentLimit - 1 else fragmentLimit) (position + s.space)
      rw [passed_cons_of_readable h.1 h.2]
      exact ⟨rest, by rw [List.map_cons, List.cons_append, ← hrest]⟩
    · refine ⟨s :: slots, ?_⟩
      rw [passed_cons_of_stuck h, List.map_nil, List.nil_append]

theorem Holds.spaceOf_bounds (h : Holds p termBuffers sessionId position slots) (fragmentLimit bound : Int) :
    0 ≤ spaceOf (passed fragmentLimit bound position slots) ∧
      position % p.termLength + spaceOf (passed fragmentLimit bound position slots) ≤ p.termLength := by
  obtain ⟨rest, hrest⟩ := passed_isPrefix fragmentLimit bound slots position
  have hlaid := h.row.laid
  have hin := h.row.inside
  rw [h.length_eq] at hin
  rw [hrest] at hlaid
  obtain ⟨hfirst, hlast⟩ := hlaid.of_append
  have hle := hfirst.le
  have hle' := hlast.le
  rw [← hrest] at hle'
  unfold spaceOf
  omega

/-- The read loop, from the position's offset on. -/
theorem Holds.readFrames_eq (h : Holds p termBuffers sessionId position slots) (handler : FragmentHandler σ)
    (fragmentLimit : Int) {offsetLimit : Int} (hlimit : offsetLimit ≤ p.termLength) (st : σ) :
    readFrames (bufferAt p termBuffers position) handler fragmentLimit offsetLimit
        (p.termLength.toNat + 1) (position % p.termLength) 0 st = do
      let xs := passed fragmentLimit (termBegin p position + offsetLimit) position slots
      let st ← xs.foldlM (deliver handler (bufferAt p termBuffers position) (termBegin p position)) st
      return (position % p.termLength + spaceOf xs, fragmentCount (xs.map Prod.snd), st) := by
  have hge := p.termLength_ge
  have hfuel : (bufferAt p termBuffers position).length - position % p.termLength <
      ((p.termLength.toNat + 1 : Nat) : Int) := by
    have := Int.emod_nonneg position (show p.termLength ≠ 0 by omega)
    rw [h.length_eq]
    omega
  have hpos : termBegin p position + position % p.termLength = position := Int.sub_add_cancel _ _
  rw [LogBuffer.readFrames_eq handler fragmentLimit (termBegin p position) (by rw [h.length_eq]; exact hlimit)
    slots _ _ _ st h.row hfuel, hpos, Int.sub_zero]
  simp only [Int.zero_add]

/-- The new position of a poll. -/
theorem Holds.advance_eq (h : Holds p termBuffers sessionId position slots) (fragmentLimit bound : Int) :
    advance ⟨false, position⟩ position (i64 (position + i32 (position % p.termLength +
        spaceOf (passed fragmentLimit bound position slots) - position % p.termLength))) =
      ⟨false, position + spaceOf (passed fragmentLimit bound position slots)⟩ := by
  have hbounds := h.spaceOf_bounds fragmentLimit bound
  have hge := p.termLength_ge
  have hle := p.termLength_le
  have hlo := h.position_nonneg
  have hhi := h.position_le
  have hoff := Int.emod_nonneg position (show p.termLength ≠ 0 by omega)
  rw [p.maxPossiblePosition_eq] at hhi
  rw [add_sub_cancel_left, i32_eq (by omega), i64_eq (by omega), advance]
  split
  next => rfl
  next hnot =>
    have hzero : spaceOf (passed fragmentLimit bound position slots) = 0 := by omega
    rw [hzero, Int.add_zero]

/-- What both polls do with the read loop: count the fragments and move the position. -/
theorem Holds.finish_eq (h : Holds p termBuffers sessionId position slots) (handler : FragmentHandler σ)
    (fragmentLimit : Int) {offsetLimit : Int} (hlimit : offsetLimit ≤ p.termLength) (st : σ) :
    (do
      let (newOffset, result, st) ← readFrames (bufferAt p termBuffers position) handler fragmentLimit
        offsetLimit (p.termLength.toNat + 1) (position % p.termLength) 0 st
      return (result, advance ⟨false, position⟩ position
        (i64 (position + i32 (newOffset - position % p.termLength))), st)) =
      outcome p termBuffers position handler st
        (passed fragmentLimit (termBegin p position + offsetLimit) position slots) := by
  rw [h.readFrames_eq handler fragmentLimit hlimit st, outcome]
  simp only [bind_assoc, pure_bind, h.advance_eq]

/-- **A poll passes the slots up to the end of the term.** -/
theorem poll_eq (h : Holds p termBuffers sessionId position slots) (handler : FragmentHandler σ)
    (fragmentLimit : Int) (st : σ) :
    poll p termBuffers ⟨false, position⟩ handler fragmentLimit st =
      outcome p termBuffers position handler st
        (passed fragmentLimit (termEnd p position) position slots) := by
  have hlength := h.length_eq
  unfold bufferAt at hlength
  rw [termEnd, ← h.finish_eq handler fragmentLimit (Int.le_refl _) st]
  simp only [poll, Bool.false_eq_true, if_false, termOffset_eq,
    indexByPosition_eq p h.position_nonneg h.position_le, LogBuffer.read, ok_bind, hlength,
    bufferAt]

/-- The limit that a bounded poll computes with: the distance narrowed to 32 bits, and the term's
offset added in 32 bits. -/
def narrowedLimit (p : LogParams) (position limitPosition : Int) : Int :=
  termBegin p position + i32 (i32 (i64 (limitPosition - position)) + position % p.termLength)

/-- **A bounded poll passes the slots up to the narrowed limit**, and not beyond the end of the term. -/
theorem boundedPoll_eq (h : Holds p termBuffers sessionId position slots) (handler : FragmentHandler σ)
    (limitPosition fragmentLimit : Int) (st : σ) :
    boundedPoll p termBuffers ⟨false, position⟩ handler limitPosition fragmentLimit st =
      outcome p termBuffers position handler st
        (passed fragmentLimit (min (narrowedLimit p position limitPosition) (termEnd p position)) position
          slots) := by
  have hlength := h.length_eq
  unfold bufferAt at hlength
  have hcap : ∀ x : Int, (if p.termLength < x then p.termLength else x) = min x p.termLength := by
    intro x
    split <;> omega
  have hmin : min (narrowedLimit p position limitPosition) (termEnd p position) = termBegin p position +
      min (i32 (i32 (i64 (limitPosition - position)) + position % p.termLength)) p.termLength := by
    unfold narrowedLimit termEnd
    omega
  rw [hmin, ← h.finish_eq handler fragmentLimit (Int.min_le_right _ _) st]
  simp only [boundedPoll, Bool.false_eq_true, if_false, termOffset_eq,
    indexByPosition_eq p h.position_nonneg h.position_le, ok_bind, hlength, hcap, bufferAt]

end AeronGo.Image
