import AeronGo.Publication.Offer
import AeronGo.Laws.LogBuffer.Append

/-!
# Laws of the offers

Seen from a subscriber a log is one memory over stream positions: position `x` lies in partition
`x / T % 3` at offset `x % T` (`Log.bytes`). A call appends a row of slots to that memory at the
producer's position, ends the term with padding and rotates, or does nothing (`publish_cases`); the
three are `Published.Rejected`, `Accepted` and `Ended`. One more thing can happen to a frame longer than
half a term: in the first half of the last possible term `newPosition` takes the position for one that
has a successor, and the rotation panics. What such a panic leaves in the log is not said here.
-/

namespace AeronGo.Stream

open Machine Util Atomic LogBuffer
open AeronGo.Publication (notConnected backPressured adminAction publicationClosed maxPositionExceeded tailPosition)

variable {p : StreamParams}

/-! ## The log as a memory over positions -/

def Log.bytes (p : StreamParams) (log : Log) : Memory := fun x => log.terms (x / p.termLength % 3) (x % p.termLength)

theorem StreamParams.termLength_pos (p : StreamParams) : 0 < p.termLength :=
  Int.lt_of_lt_of_le (by decide) p.termLength_ge

/-- Terms of 64 KiB whose ids wrap at once, and fragments of 32 bytes. -/
def StreamParams.smallest : StreamParams where
  toLogParams := { LogParams.smallest with
    mtu := 64
    mtu_aligned := by decide
    mtu_gt := by decide
    mtu_lt := by decide }
  sessionID := 7
  streamID := 10
  sessionID_range := by decide

variable {o a b n length : Int} {log : Log}

/-- The term and the offset of a position. -/
theorem position_split (p : StreamParams) (n : Int) (lo : 0 ≤ o) (hi : o < p.termLength) :
    (n * p.termLength + o) / p.termLength = n ∧ (n * p.termLength + o) % p.termLength = o := by
  have hpos := p.termLength_pos
  constructor
  · rw [Int.add_comm, Int.add_mul_ediv_right _ _ (by omega), Int.ediv_eq_zero_of_lt lo hi, Int.zero_add]
  · rw [Int.add_comm, Int.add_mul_emod_self_right, Int.emod_eq_of_lt lo hi]

theorem Log.bytes_at (p : StreamParams) (log : Log) (n : Int) (lo : 0 ≤ o) (hi : o < p.termLength) :
    log.bytes p (n * p.termLength + o) = log.terms (n % 3) o := by
  obtain ⟨hterm, hoff⟩ := position_split p n lo hi
  rw [Log.bytes, hterm, hoff]

/-- The bytes of one partition: those of the other terms of the last three are untouched. -/
theorem Log.bytes_agree {log' : Log} {m : Memory}
    (hterms : log'.terms = fun j => if j = n % 3 then m else log.terms j)
    (hagree : AgreeOutside a b (log.terms (n % 3)) m) {x : Int} (lo : (n - 2) * p.termLength ≤ x)
    (hi : x < (n + 3) * p.termLength) (hx : x < n * p.termLength + a ∨ n * p.termLength + b ≤ x) :
    log'.bytes p x = log.bytes p x := by
  have hpos := p.termLength_pos
  have hmod := Int.emod_nonneg x (show p.termLength ≠ 0 by omega)
  have hsplit := Int.mul_ediv_add_emod x p.termLength
  have hlo : n - 2 ≤ x / p.termLength := (Int.le_ediv_iff_mul_le hpos).mpr lo
  have hhi : x / p.termLength < n + 3 := (Int.ediv_lt_iff_lt_mul hpos).mpr hi
  unfold Log.bytes
  rw [hterms]
  by_cases hindex : x / p.termLength % 3 = n % 3
  · have hterm : x / p.termLength = n := by omega
    rw [hterm, Int.mul_comm] at hsplit
    dsimp only
    rw [if_pos hindex, hindex]
    exact hagree _ (by omega)
  · dsimp only
    rw [if_neg hindex]

/-- A row laid in the partition of a term is laid in the stream. -/
theorem Log.laid_bytes {sessionId : Int} {slots : List Slot}
    (hlaid : Laid sessionId (log.terms (n % 3)) a slots b) (lo : 0 ≤ a) (hi : b ≤ p.termLength) :
    Laid sessionId (log.bytes p) (n * p.termLength + a) slots (n * p.termLength + b) := by
  rw [Int.add_comm _ a, Int.add_comm _ b]
  refine hlaid.shift _ _ ?_
  intro i hai hib
  rw [Int.add_comm, Log.bytes_at p log n (by omega) (by omega)]

/-- The id of the term that a position lies in. -/
def termIdAt (p : StreamParams) (x : Int) : Int := i32 (p.initialTermId + x / p.termLength)

/-- All positions of a term have its id. -/
theorem termIdAt_term {termBegin : Int} (h : termBegin % p.termLength = 0) (lo : 0 ≤ o) (hi : o < p.termLength) :
    termIdAt p (termBegin + o) = termIdAt p termBegin := by
  obtain ⟨n, rfl⟩ := Int.dvd_of_emod_eq_zero h
  have hpos := p.termLength_pos
  rw [termIdAt, termIdAt, Int.mul_comm, (position_split p n lo hi).1, Int.mul_ediv_cancel _ (Int.ne_of_gt hpos)]

/-- A row stamped in the partition of a term is stamped in the stream. -/
theorem Log.stamped_bytes {sessionId : Int} {slots : List Slot}
    (hrow : TermRow sessionId (i32 (p.initialTermId + n)) (log.terms (n % 3)) a slots b) (lo : 0 ≤ a)
    (hi : b ≤ p.termLength) : Stamped (termIdAt p) (log.bytes p) (n * p.termLength + a) slots := by
  rw [Int.add_comm _ a]
  refine hrow.stamped.shift hrow.laid _ _ _ ?_ ?_
  · intro i hai hib
    rw [Int.add_comm, Log.bytes_at p log n (by omega) (by omega)]
  · intro i hai hib
    rw [Int.add_comm, termIdAt, (position_split p n (by omega) (by omega)).1]

/-! ## Where a log stands -/

/-- The publisher's view of the log: term `n` is active, its tail is at an offset, and the other two
partitions carry the ids of the two terms before. Only in the last possible term may the tail be past
the end of the term between two calls. -/
structure LogAt (p : StreamParams) (log : Log) (n off : Int) : Prop where
  count : log.activeTermCount = n
  n_nonneg : 0 ≤ n
  n_lt : n < 2147483648
  off_nonneg : 0 ≤ off
  off_aligned : off % 32 = 0
  off_lt : off < 4294967296
  off_le : n < 2147483647 → off ≤ p.termLength
  tail : log.tails (n % 3) = rawTail (i32 (p.initialTermId + n)) off
  next : termID (log.tails ((n + 1) % 3)) = i32 (p.initialTermId + n - 2)
  last : termID (log.tails ((n + 2) % 3)) = i32 (p.initialTermId + n - 1)

/-- The end of what is claimed. -/
def producerPosition (p : StreamParams) (n off : Int) : Int := n * p.termLength + min off p.termLength

theorem logAt_initial (p : StreamParams) : LogAt p (Log.initial p) 0 0 := by
  have hpos := p.termLength_pos
  have htail : ∀ j, rawTailOf (i32 j) = rawTail (i32 j) 0 := fun j => rawTailOf_eq (i32_range j)
  refine ⟨rfl, Int.le_refl 0, by decide, Int.le_refl 0, rfl, by omega, fun _ => by omega, ?_, ?_, ?_⟩
  · exact htail _
  · show termID (rawTailOf (i32 (p.initialTermId + (1 - 3)))) = _
    rw [htail, termID_rawTail (i32_range _) (Int.le_refl 0) (by decide)]
    congr 1
    omega
  · show termID (rawTailOf (i32 (p.initialTermId + (2 - 3)))) = _
    rw [htail, termID_rawTail (i32_range _) (Int.le_refl 0) (by decide)]
    congr 1
    omega

namespace LogAt

variable {log : Log} {n off : Int} (h : LogAt p log n off)

include h

/-- The bytes of the terms do not matter. -/
theorem of_tails {log' : Log} (htails : log'.tails = log.tails) (hcount : log'.activeTermCount = log.activeTermCount) :
    LogAt p log' n off :=
  { h with
    count := hcount.trans h.count
    tail := by rw [htails]; exact h.tail
    next := by rw [htails]; exact h.next
    last := by rw [htails]; exact h.last }

theorem index_eq : indexByTermCount n = n % 3 := Int.tmod_eq_emod_of_nonneg h.n_nonneg

/-- Where the active term begins, as a position. -/
theorem begin_bounds : 0 ≤ n * p.termLength ∧ n * p.termLength ≤ 2305843009213693952 := by
  have hge := p.termLength_ge
  have hle := p.termLength_le
  have hlo := h.n_nonneg
  have hlt := h.n_lt
  constructor
  · nlinarith
  · nlinarith

theorem termID_tail : termID (log.tails (n % 3)) = i32 (p.initialTermId + n) := by
  rw [h.tail, termID_rawTail (i32_range _) h.off_nonneg h.off_lt]

theorem tailOffset_tail : tailOffset (log.tails (n % 3)) = off := by
  rw [h.tail, tailOffset_rawTail _ h.off_nonneg h.off_lt]

theorem termCount_tail : i32 (termID (log.tails (n % 3)) - p.initialTermId) = n := by
  have hlo := h.n_nonneg
  have hlt := h.n_lt
  rw [h.termID_tail, i32_sub_left, add_sub_cancel_left, i32_eq (by omega)]

/-- The position that the calls compute is that of the tail. -/
theorem tailPosition_tail : tailPosition p.toLogParams (log.tails (n % 3)) = n * p.termLength + off := by
  have hle := p.termLength_le
  have hbegin := h.begin_bounds
  have hoff := h.off_nonneg
  have hlt := h.off_lt
  rw [tailPosition, computeTermBeginPosition_eq, h.termCount_tail, h.tailOffset_tail]
  exact i64_eq (by omega)

omit h in
/-- Below the limit the tail's offset is a word: past the end of the last term it may not be one. -/
theorem off_lt_word (p : StreamParams) {limit : Int} (hroom : limit ≤ producerPosition p n off + p.termLength / 2)
    (hlimit : n * p.termLength + off < limit) : off < 2147483648 := by
  have hle := p.termLength_le
  unfold producerPosition at hroom
  omega

theorem appenderAt (hword : off < 2147483648) :
    AppenderAt (log.appender p (n % 3)) (i32 (p.initialTermId + n)) off where
  addressable := p.termLength_le
  length_aligned := p.termLength_aligned
  session := p.sessionID_range
  tail_eq := h.tail
  termId_range := i32_range _
  offset_nonneg := h.off_nonneg
  offset_lt := hword
  offset_aligned := h.off_aligned

/-- The log after an append to the active term, before any rotation. -/
theorem moved (m : Memory) (off' : Int) :
    ∃ log', log' = log.setAppender (n % 3) ((log.appender p (n % 3)).moved m (i32 (p.initialTermId + n)) off') ∧
      (log'.terms = fun j => if j = n % 3 then m else log.terms j) ∧ log'.activeTermCount = n ∧
      log'.tails (n % 3) = rawTail (i32 (p.initialTermId + n)) off' ∧
      termID (log'.tails ((n + 1) % 3)) = i32 (p.initialTermId + n - 2) ∧
      termID (log'.tails ((n + 2) % 3)) = i32 (p.initialTermId + n - 1) := by
  have hother : ∀ k, k % 3 ≠ n % 3 → (log.setAppender (n % 3) ((log.appender p (n % 3)).moved m
      (i32 (p.initialTermId + n)) off')).tails (k % 3) = log.tails (k % 3) := fun k hk => if_neg hk
  refine ⟨_, rfl, rfl, h.count, if_pos rfl, ?_, ?_⟩
  · rw [hother (n + 1) (by omega)]
    exact h.next
  · rw [hother (n + 2) (by omega)]
    exact h.last

end LogAt

/-! ## The outcomes of a call -/

/-- A row of slots was written to the stream in term `n`, and nothing else changed in the terms around
it. -/
structure Wrote (p : StreamParams) (log log' : Log) (n : Int) (a : Int) (slots : List Slot) (b : Int) : Prop where
  laid : Laid p.sessionID (log'.bytes p) a slots b
  stamped : Stamped (termIdAt p) (log'.bytes p) a slots
  inside : n * p.termLength ≤ a ∧ b ≤ (n + 1) * p.termLength
  same : ∀ x, (n - 2) * p.termLength ≤ x → x < (n + 3) * p.termLength → x < a ∨ b ≤ x →
    log'.bytes p x = log.bytes p x

section Wrote

variable {log log' : Log} {n a b : Int} {m : Memory} {slots : List Slot}

theorem Wrote.of_partition (hterms : log'.terms = fun j => if j = n % 3 then m else log.terms j)
    (hrow : TermRow p.sessionID (i32 (p.initialTermId + n)) m a slots b)
    (hagree : AgreeOutside a b (log.terms (n % 3)) m) (lo : 0 ≤ a) (hi : b ≤ p.termLength) :
    Wrote p log log' n (n * p.termLength + a) slots (n * p.termLength + b) := by
  have hpartition : log'.terms (n % 3) = m := by
    rw [hterms]
    exact if_pos rfl
  rw [← hpartition] at hrow
  refine ⟨Log.laid_bytes hrow.laid lo hi, Log.stamped_bytes hrow lo hi, ?_, ?_⟩
  · rw [Int.add_mul, Int.one_mul]
    exact ⟨by omega, by omega⟩
  · exact fun _ hlo hhi hx => Log.bytes_agree hterms hagree hlo hhi hx

end Wrote

namespace Published

variable {α : Type} (p : StreamParams) (pub : PublicationState) (n off required : Int) (slots : List Slot) (x : Int → α)
  (r : Published α)

/-- The call did nothing. -/
structure Rejected : Prop where
  value : r.value < 0
  written : r.written = none
  publication : r.publication = pub

/-- The call appended the slots: the value is the position of their end. -/
structure Accepted : Prop where
  limit : n * p.termLength + off < pub.limit
  fits : off + required ≤ p.termLength
  value : r.value = n * p.termLength + off + required
  written : r.written = some (n % 3, x off)
  publication : r.publication = { pub with log := r.publication.log }
  logAt : LogAt p r.publication.log n (off + required)
  wrote : Wrote p pub.log r.publication.log n (n * p.termLength + off) slots (n * p.termLength + (off + required))

/-- The call came to the end of the term: padding, and the next term where there is one. -/
structure Ended : Prop where
  limit : n * p.termLength + off < pub.limit
  ends : p.termLength < off + required
  value : r.value < 0
  written : r.written = none
  publication : r.publication = { pub with log := r.publication.log }
  tail : tailOffset (r.publication.log.tails (n % 3)) = off + required
  logAt : n < 2147483647 ∧ LogAt p r.publication.log (n + 1) 0 ∨
    n = 2147483647 ∧ LogAt p r.publication.log n (off + required)
  wrote : Wrote p pub.log r.publication.log n (producerPosition p n off) (endSlots p.termLength off)
    ((n + 1) * p.termLength)

/-- What a call comes to: a result, or a panic where it asked for more than half a term. -/
def Returns (call : Except Stop (Published α)) : Prop :=
  (∃ r, call = .ok r ∧ (r.Rejected pub ∨ r.Accepted p pub n off required slots x ∨ r.Ended p pub n off required)) ∨
    call = .error .panic ∧ p.termLength < 2 * required

variable {p pub n off required slots x r} {call : Except Stop (Published α)}

theorem Returns.of_ok (h : Returns p pub n off required slots x call) (hr : call = .ok r) :
    r.Rejected pub ∨ r.Accepted p pub n off required slots x ∨ r.Ended p pub n off required := by
  rcases h with ⟨r', hr', hcases⟩ | ⟨hpanic, _⟩
  · obtain rfl : r' = r := Except.ok.inj (hr'.symm.trans hr)
    exact hcases
  · cases hpanic.symm.trans hr

end Published

/-! ## Rotation -/

/-- Rotating from the end of a term that has a successor. -/
theorem rotateLog_ok {off : Int} (hcount : log.activeTermCount = n) (lo : 0 ≤ n) (hi : n < 2147483647)
    (htail : log.tails (n % 3) = rawTail (i32 (p.initialTermId + n)) off) (hoff : 0 ≤ off) (hoffi : off < 4294967296)
    (hnext : termID (log.tails ((n + 1) % 3)) = i32 (p.initialTermId + n - 2))
    (hlast : termID (log.tails ((n + 2) % 3)) = i32 (p.initialTermId + n - 1)) :
    ∃ log', log.rotateLog n (i32 (p.initialTermId + n)) = .ok log' ∧ log'.terms = log.terms ∧
      log'.tails (n % 3) = log.tails (n % 3) ∧ LogAt p log' (n + 1) 0 := by
  have hpos := p.termLength_pos
  have hcountWord : i32 (n + 1) = n + 1 := i32_eq (by omega)
  have hindex : indexByTermCount (n + 1) = (n + 1) % 3 := by
    rw [indexByTermCount, Int.tmod_eq_emod_of_nonneg (by omega)]
  have hid : i32 (i32 (p.initialTermId + n) + 1) = i32 (p.initialTermId + (n + 1)) := by
    rw [i32_add_left, Int.add_assoc]
  have hexpected : i32 (i32 (p.initialTermId + (n + 1)) - 3) = i32 (p.initialTermId + n - 2) := by
    rw [i32_sub_left]
    congr 1
    omega
  have hsame : n % 3 ≠ (n + 1) % 3 := by omega
  have hthird : (n + 2) % 3 ≠ (n + 1) % 3 := by omega
  refine ⟨{ log with
    tails := fun j => if j = (n + 1) % 3 then rawTailOf (i32 (p.initialTermId + (n + 1))) else log.tails j
    activeTermCount := n + 1 }, ?_, rfl, if_neg hsame, ?_⟩
  · simp only [Log.rotateLog, hcountWord, hindex, hid, hexpected, hnext, ne_eq, not_true_eq_false, if_false,
      if_neg (show ¬(n + 1) % 3 < 0 by omega), hcount, if_true]
  · refine ⟨rfl, by omega, by omega, Int.le_refl 0, rfl, by omega, fun _ => by omega, ?_, ?_, ?_⟩
    · simp only [if_true]
      exact rawTailOf_eq (i32_range _)
    · have hplace : (n + 1 + 1) % 3 = (n + 2) % 3 := by omega
      simp only [hplace, if_neg hthird, hlast]
      congr 1
      omega
    · have hplace : (n + 1 + 2) % 3 = n % 3 := by omega
      simp only [hplace, if_neg hsame, htail, termID_rawTail (i32_range _) hoff hoffi]
      congr 1
      omega

/-- Behind the last possible term the index of the next partition is negative. -/
theorem rotateLog_last (log : Log) (termId : Int) : log.rotateLog 2147483647 termId = .error .panic := by
  have hindex : indexByTermCount (i32 (2147483647 + 1)) = -2 := by decide
  simp only [Log.rotateLog, hindex]
  exact if_pos (by decide)

/-! ## Publishing -/

theorem backPressureStatus_neg (p : StreamParams) (isConnected : Bool) (currentPosition messageLength : Int) :
    backPressureStatus p isConnected currentPosition messageLength < 0 := by
  unfold backPressureStatus
  split
  · decide
  · split <;> decide

section Publish

variable {α : Type} {pub : PublicationState} {n off required : Int} {slots : List Slot} {x : Int → α}
  {run : Appender → Except Stop (Appended α)}

/-- A call reads the meta data of the active term. With one publisher the term count is that of the
tail, so the check that `TryClaim` leaves out finds nothing. -/
theorem publish_eq (h : LogAt p pub.log n off) (checksTerm : Bool) (length : Int)
    (run : Appender → Except Stop (Appended α)) :
    publish p pub checksTerm length run =
      if pub.limit ≤ n * p.termLength + off then
        .ok ⟨backPressureStatus p pub.isConnected (n * p.termLength + off) length, none, pub⟩
      else do
        let r ← run (pub.log.appender p (n % 3))
        let (value, log) ← newPosition p (pub.log.setAppender (n % 3) r.appender) n off r.termID
          (n * p.termLength + off) r.resultingOffset
        return ⟨value, r.written.map fun x => (n % 3, x), { pub with log := log }⟩ := by
  simp only [publish, h.count, h.index_eq, if_neg (show ¬n % 3 < 0 by omega), h.tailPosition_tail, h.termCount_tail,
    ne_eq, not_true_eq_false, and_false, if_false, h.tailOffset_tail]

/-- A call whose append fits. -/
theorem publish_fits (h : LogAt p pub.log n off) (happ : Appends p.sessionID required slots x run)
    (lo : 0 < required) (halign : required % 32 = 0) (hfits : off + required ≤ p.termLength)
    (hlimit : n * p.termLength + off < pub.limit) (checksTerm : Bool) (length : Int) :
    ∃ r, publish p pub checksTerm length run = .ok r ∧ r.Accepted p pub n off required slots x := by
  have hge := p.termLength_ge
  have hle := p.termLength_le
  have hoff := h.off_nonneg
  have hnlo := h.n_nonneg
  have hnlt := h.n_lt
  have haligned := h.off_aligned
  have hbegin := h.begin_bounds
  obtain ⟨store, hrun, hstore⟩ := happ (pub.log.appender p (n % 3)) rfl
  obtain ⟨m, happend, hrow, hagree⟩ := append_fits (h.appenderAt (by omega)) lo (by omega) hstore hfits
  have hvalue : i64 (i64 (n * p.termLength + off - off) + (off + required)) = n * p.termLength + off + required := by
    have hword : i64 (n * p.termLength) = n * p.termLength := i64_eq (by omega)
    rw [Int.add_sub_cancel, hword, i64_eq (by omega)]
    omega
  obtain ⟨log, hlog, hterms, hcount, htail, hnext, hlast⟩ := h.moved m (off + required)
  refine ⟨⟨n * p.termLength + off + required, some (n % 3, x off), { pub with log := log }⟩, ?_, hlimit, hfits, rfl, rfl,
    rfl, ⟨hcount, hnlo, hnlt, by omega, by omega, by omega, fun _ => hfits, htail, hnext, hlast⟩,
    Wrote.of_partition hterms hrow hagree hoff hfits⟩
  rw [publish_eq h, if_neg (Int.not_le.mpr hlimit), hrun, happend, ok_bind, newPosition,
    if_pos (show 0 < off + required by omega), hvalue, hlog]
  rfl

/-- A call that comes to the end of the term. The last possible term has no successor: the call says so if
it finds the tail in the second half of the term, and else it panics. -/
theorem publish_ends (h : LogAt p pub.log n off) (happ : Appends p.sessionID required slots x run)
    (lo : 0 < required) (hi : required < 2147483648) (halign : required % 32 = 0)
    (hends : p.termLength < off + required) (hlimit : n * p.termLength + off < pub.limit)
    (hroom : pub.limit ≤ producerPosition p n off + p.termLength / 2) (checksTerm : Bool) (length : Int) :
    (∃ r, publish p pub checksTerm length run = .ok r ∧ r.Ended p pub n off required) ∨
      publish p pub checksTerm length run = .error .panic ∧ p.termLength < 2 * required := by
  have hword := LogAt.off_lt_word p hroom hlimit
  have hge := p.termLength_ge
  have hle := p.termLength_le
  have hoff := h.off_nonneg
  have hnlo := h.n_nonneg
  have hnlt := h.n_lt
  have haligned := h.off_aligned
  have hbegin := h.begin_bounds
  have hofflt := h.off_lt
  unfold producerPosition at hroom
  obtain ⟨store, hrun, _⟩ := happ (pub.log.appender p (n % 3)) rfl
  obtain ⟨m, happend, hrow, hagree⟩ := append_ends (h.appenderAt hword) lo hi store hends
  have hresult : ¬0 < endOfLogResult p.termLength off := by
    unfold endOfLogResult appenderTripped appenderFailed
    split <;> decide
  have hsum : i64 (n * p.termLength + off + off) = n * p.termLength + off + off :=
    i64_eq (by omega)
  have hmax := p.maxPossiblePosition_eq
  have hterm : (n + 1) * p.termLength = n * p.termLength + p.termLength := by ring
  obtain ⟨log, hlog, hterms, hcount, htail, hnext, hlast⟩ := h.moved m (off + required)
  have hwrote : ∀ log', log'.terms = log.terms → Wrote p pub.log log' n (producerPosition p n off)
      (endSlots p.termLength off) ((n + 1) * p.termLength) := by
    intro log' hsame
    rw [hterm, producerPosition]
    exact Wrote.of_partition (hsame.trans hterms) hrow hagree (by omega) (Int.le_refl _)
  have htailOffset : tailOffset (log.tails (n % 3)) = off + required := by
    rw [htail, tailOffset_rawTail _ (by omega) (by omega)]
  have hpublish : publish p pub checksTerm length run =
      newPosition p log n off (i32 (p.initialTermId + n)) (n * p.termLength + off) (endOfLogResult p.termLength off) >>=
        fun r => .ok ⟨r.1, none, { pub with log := r.2 }⟩ := by
    rw [publish_eq h, if_neg (Int.not_le.mpr hlimit), hrun, happend, ok_bind, hlog]
    rfl
  rw [hpublish, newPosition, if_neg hresult, hsum, hmax]
  by_cases hlastTerm : n < 2147483647
  · have hoffle := h.off_le hlastTerm
    obtain ⟨log', hrotate, hsame, htails, hat⟩ := rotateLog_ok hcount hnlo hlastTerm htail (by omega) (by omega) hnext
      hlast
    have hnot : ¬p.termLength * 2147483648 < n * p.termLength + off + off := by nlinarith
    refine .inl ⟨⟨adminAction, none, { pub with log := log' }⟩, ?_, hlimit, hends, show adminAction < 0 by decide, rfl,
      rfl, ?_, .inl ⟨hlastTerm, hat⟩, hwrote log' hsame⟩
    · rw [if_neg hnot, hrotate]
      rfl
    · show tailOffset (log'.tails (n % 3)) = _
      rw [htails, htailOffset]
  · have hn : n = 2147483647 := by omega
    by_cases hexceeds : p.termLength * 2147483648 < n * p.termLength + off + off
    · refine .inl ⟨⟨maxPositionExceeded, none, { pub with log := log }⟩, ?_, hlimit, hends,
        show maxPositionExceeded < 0 by decide, rfl, rfl, htailOffset, .inr ⟨hn, ?_⟩, hwrote log rfl⟩
      · rw [if_pos hexceeds]
        rfl
      · exact ⟨hcount, hnlo, hnlt, by omega, by omega, by omega, fun hlt => absurd hlt hlastTerm, htail, hnext, hlast⟩
    · rw [hn] at hexceeds ⊢
      refine .inr ⟨?_, by omega⟩
      rw [if_neg hexceeds, rotateLog_last]
      rfl

/-- **A call is rejected, appends, or ends the term**, if it does not panic there. -/
theorem publish_cases (h : LogAt p pub.log n off) (happ : Appends p.sessionID required slots x run)
    (lo : 0 < required) (hi : required < 2147483648) (halign : required % 32 = 0)
    (hroom : pub.limit ≤ producerPosition p n off + p.termLength / 2) (checksTerm : Bool) (length : Int) :
    Published.Returns p pub n off required slots x (publish p pub checksTerm length run) := by
  by_cases hlimit : n * p.termLength + off < pub.limit
  · by_cases hfits : off + required ≤ p.termLength
    · obtain ⟨r, hr, haccepted⟩ := publish_fits h happ lo halign hfits hlimit checksTerm length
      exact .inl ⟨r, hr, .inr (.inl haccepted)⟩
    · rcases publish_ends h happ lo hi halign (by omega) hlimit hroom checksTerm length with ⟨r, hr, hended⟩ | hpanic
      · exact .inl ⟨r, hr, .inr (.inr hended)⟩
      · exact .inr hpanic
  · refine .inl ⟨⟨backPressureStatus p pub.isConnected (n * p.termLength + off) length, none, pub⟩, ?_,
      .inl ⟨backPressureStatus_neg _ _ _ _, rfl, rfl⟩⟩
    rw [publish_eq h, if_pos (Int.not_lt.mp hlimit)]

end Publish

/-! ## The calls -/

/-- The bytes of the term that a message takes. -/
def messageRequired (p : StreamParams) (length : Int) : Int :=
  if length ≤ p.maxPayloadLength then (length + 63) / 32 * 32 else messageSpace p.maxPayloadLength length

/-- The most that a message takes: one frame of the MTU, or the fragments of an eighth of a term. -/
def maxRequired (p : StreamParams) : Int := max (p.termLength / 4 + 64) p.mtu

theorem maxRequired_lt (p : StreamParams) : maxRequired p < 2147483648 := by
  have hle := p.termLength_le
  have hlt := p.mtu_lt
  unfold maxRequired
  omega

/-- A length that the size checks accept takes at least its own space and at most `maxRequired`. -/
structure Requires (p : StreamParams) (length required : Int) : Prop where
  pos : 0 < required
  length_le : length ≤ required
  le : required ≤ maxRequired p
  aligned : required % 32 = 0

/-- Only a frame takes more than half a term. -/
theorem Requires.half {required : Int} (h : Requires p length required) (hhalf : p.termLength < 2 * required) :
    p.termLength < 2 * p.mtu := by
  have hge := p.termLength_ge
  have hle := h.le
  unfold maxRequired at hle
  omega

theorem requires_frame (p : StreamParams) (lo : 0 ≤ length) (hi : length ≤ p.maxPayloadLength) :
    Requires p length ((length + 63) / 32 * 32) := by
  have hmtu := p.mtu_aligned
  rw [p.maxPayloadLength_eq] at hi
  refine ⟨by omega, by omega, ?_, by omega⟩
  unfold maxRequired
  omega

theorem requires_message (p : StreamParams) (lo : 0 ≤ length) (hi : length ≤ p.maxOffer) :
    Requires p length (messageRequired p length) := by
  unfold messageRequired
  split
  next hsingle => exact requires_frame p lo hsingle
  next hlong =>
    have hm := p.maxPayloadLength_ge
    have hbounds := messageSpace_bounds hm lo
    have haligned := messageSpace_aligned length p.maxPayloadLength_aligned
    rw [StreamParams.maxOffer, p.maxMessageLength_eq] at hi
    refine ⟨by omega, by omega, ?_, haligned⟩
    unfold maxRequired
    omega

/-- The length of a frame's payload leaves a word for its header and its alignment. -/
theorem StreamParams.frame_word (p : StreamParams) (h : length ≤ p.maxPayloadLength) :
    length ≤ 2147483584 := by
  have hlt := p.maxPayloadLength_lt
  have haligned := p.maxPayloadLength_aligned
  omega

/-- A message that is fragmented has passed the size check. -/
theorem StreamParams.fragmented_le (p : StreamParams) (h : ¬length ≤ p.maxPayloadLength)
    (hmax : length ≤ p.maxOffer) : length ≤ p.maxMessageLength ∧ length ≤ 1073741000 := by
  have hle := p.termLength_le
  have hmessage := p.maxMessageLength_eq
  unfold maxOffer at hmax
  omega

section Calls

variable {pub : PublicationState} {n off : Int} (h : LogAt p pub.log n off)
  (hroom : pub.limit ≤ producerPosition p n off + p.termLength / 2)

include h hroom

/-- **Offer** appends the slots of the message. -/
theorem offer_cases {buffer : Buffer} {offset length : Int} (hsrc : Source buffer offset length)
    (hmax : length ≤ p.maxOffer) (supplier : Option ReservedValueSupplier) :
    Published.Returns p pub n off (messageRequired p length)
      (messageSlots p.maxPayloadLength (sourceBytes buffer offset length)) (fun _ => ())
      (offer p pub buffer offset length supplier) := by
  have hlength := hsrc.length_bytes
  have hreq := requires_message p hsrc.length_nonneg hmax
  unfold offer
  split
  next => exact .inl ⟨_, rfl, .inl ⟨show publicationClosed < 0 by decide, rfl, rfl⟩⟩
  next =>
    refine publish_cases h ?_ hreq.pos (Int.lt_of_le_of_lt hreq.le (maxRequired_lt p)) hreq.aligned hroom true length
    intro a ha
    by_cases hsingle : length ≤ p.maxPayloadLength
    · simp only [messageRequired, messageSlots, hlength, if_pos hsingle]
      exact appendUnfragmentedMessage_appends p.sessionID_range hsrc (p.frame_word hsingle) _ a ha
    · have hmessage := p.fragmented_le hsingle hmax
      have hnat : (sourceBytes buffer offset length).length = length.toNat := by omega
      rw [messageSlots, hlength, if_neg hsingle, hnat, messageRequired, if_neg hsingle]
      simp only [if_neg hsingle, if_neg (Int.not_lt.mpr hmessage.1)]
      exact appendFragmentedMessage_appends p.sessionID_range p.maxPayloadLength_ge p.maxPayloadLength_aligned
        p.maxPayloadLength_lt hsrc hmessage.2 _ a ha

/-- **Offer2** appends the slots of the two parts as one message. -/
theorem offer2_cases {src : TwoParts} (hsrc : TwoSources src)
    (hmax : src.lengthOne + src.lengthTwo ≤ p.maxOffer) (supplier : Option ReservedValueSupplier) :
    Published.Returns p pub n off (messageRequired p (src.lengthOne + src.lengthTwo))
      (messageSlots p.maxPayloadLength (twoBytes src)) (fun _ => ()) (offer2 p pub src supplier) := by
  have hlength := hsrc.length_bytes
  have hone := hsrc.one.length_nonneg
  have htwo := hsrc.two.length_nonneg
  have hreq := requires_message p (Int.add_nonneg hone htwo) hmax
  have hlt := Int.lt_of_le_of_lt (Int.le_trans hreq.length_le hreq.le) (maxRequired_lt p)
  have hsum : i32 (src.lengthOne + src.lengthTwo) = src.lengthOne + src.lengthTwo := i32_eq (by omega)
  unfold offer2
  rw [if_neg (Int.not_lt.mpr hone), if_neg (Int.not_lt.mpr htwo), hsum]
  dsimp only
  rw [if_neg (show ¬src.lengthOne + src.lengthTwo < 0 by omega)]
  split
  next => exact .inl ⟨_, rfl, .inl ⟨show publicationClosed < 0 by decide, rfl, rfl⟩⟩
  next =>
    refine publish_cases h ?_ hreq.pos (Int.lt_of_le_of_lt hreq.le (maxRequired_lt p)) hreq.aligned hroom true _
    intro a ha
    by_cases hsingle : src.lengthOne + src.lengthTwo ≤ p.maxPayloadLength
    · simp only [messageRequired, messageSlots, hlength, if_pos hsingle]
      exact appendUnfragmentedMessage2_appends p.sessionID_range hsrc (p.frame_word hsingle) _ a ha
    · have hmessage := p.fragmented_le hsingle hmax
      have hnat : (twoBytes src).length = (src.lengthOne + src.lengthTwo).toNat := by omega
      rw [messageSlots, hlength, if_neg hsingle, hnat, messageRequired, if_neg hsingle]
      simp only [if_neg hsingle, if_neg (Int.not_lt.mpr hmessage.1)]
      exact appendFragmentedMessage2_appends p.sessionID_range p.maxPayloadLength_ge p.maxPayloadLength_aligned
        p.maxPayloadLength_lt hsrc hmessage.2 _ a ha

/-- **TryClaim** appends a pending slot. -/
theorem tryClaim_cases {length : Int} (hlo : 0 ≤ length) (hmax : length ≤ p.maxPayloadLength) :
    Published.Returns p pub n off ((length + 63) / 32 * 32) [.pending (length + 32)]
      (fun offset => (offset, length + 32)) (tryClaim p pub length) := by
  have hreq := requires_frame p hlo hmax
  unfold tryClaim
  split
  next => exact .inl ⟨_, rfl, .inl ⟨show publicationClosed < 0 by decide, rfl, rfl⟩⟩
  next =>
    rw [if_neg (Int.not_lt.mpr hmax)]
    exact publish_cases h (claim_appends p.sessionID_range hlo (p.frame_word hmax)) hreq.pos
      (Int.lt_of_le_of_lt hreq.le (maxRequired_lt p)) hreq.aligned hroom false length

end Calls

end AeronGo.Stream
