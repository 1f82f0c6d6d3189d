import AeronGo.Laws.Image.Poll
import AeronGo.Laws.Publication.Claim
import AeronGo.Laws.Stream.Entries

/-!
# What holds of a stream

`Inv` relates the state of a stream to the entries of its log: the slots up to the subscriber position are consumed,
those from there to the producer's position lie in the log, and behind that the log is zero until the term ends, or
until the next one does. It is stated for any consumer that polls soundly (`Consumer.Sound`) and kept by every step
(`Inv.step`). Publisher and image share one log, as over IPC; a network between two logs is left out.
-/

namespace AeronGo.Stream

open Machine Util Atomic LogBuffer

/-! ## Slots and terms -/

/-- No slot crosses the end of a term. -/
def Fits (termLength : Int) : Int → List Slot → Prop
  | _, [] => True
  | a, s :: rest => a % termLength + s.space ≤ termLength ∧ Fits termLength (a + s.space) rest

variable {a termLength : Int} {xs : List Slot}

theorem Fits.append {ys : List Slot} (hx : Fits termLength a xs)
    (hy : Fits termLength (a + totalSpace xs) ys) : Fits termLength a (xs ++ ys) := by
  induction xs generalizing a with
  | nil => simpa using hy
  | cons x xs ih =>
    rw [totalSpace_cons, ← Int.add_assoc] at hy
    exact ⟨hx.1, ih hx.2 hy⟩

theorem Fits.split {ys : List Slot} (h : Fits termLength a (xs ++ ys)) :
    Fits termLength a xs ∧ Fits termLength (a + totalSpace xs) ys := by
  induction xs generalizing a with
  | nil => simpa [Fits] using h
  | cons x xs ih =>
    obtain ⟨hx, hy⟩ := ih h.2
    rw [totalSpace_cons, ← Int.add_assoc]
    exact ⟨⟨h.1, hx⟩, hy⟩

/-- Slots between the begin and the end of a term. -/
theorem Fits.of_term {n : Int} (hpos : 0 < termLength) (hxs : ∀ s ∈ xs, 0 < s.space)
    (lo : n * termLength ≤ a) (hi : a + totalSpace xs ≤ (n + 1) * termLength) : Fits termLength a xs := by
  induction xs generalizing a with
  | nil => trivial
  | cons x xs ih =>
    have hx := hxs x List.mem_cons_self
    have hrest := totalSpace_nonneg fun s hs => hxs s (List.mem_cons_of_mem x hs)
    rw [totalSpace_cons] at hi
    have hn := Int.add_mul n 1 termLength
    have hmod : a % termLength = a - n * termLength := by
      have hdiv : a / termLength = n := by
        rw [Int.ediv_eq_iff_of_pos hpos]
        constructor <;> linarith
      rw [Int.emod_def, hdiv, Int.mul_comm]
    refine ⟨by omega, ih (fun s hs => hxs s (List.mem_cons_of_mem x hs)) (by omega) (by omega)⟩

/-- The first slots of a row, up to the end of the term it starts in. -/
theorem Fits.row (hpos : 0 < termLength) {slots : List Slot} (hslots : ∀ s ∈ slots, 0 < s.space)
    (h : Fits termLength a slots) :
    ∃ row rest, slots = row ++ rest ∧ a % termLength + totalSpace row ≤ termLength ∧
      (rest ≠ [] → a % termLength + totalSpace row = termLength) ∧ (slots ≠ [] → row ≠ []) := by
  have hmod := Int.emod_lt_of_pos a hpos
  induction slots generalizing a with
  | nil => exact ⟨[], [], rfl, by rw [totalSpace_nil]; omega, fun hne => absurd rfl hne, fun hne => absurd rfl hne⟩
  | cons s slots ih =>
    have hs := hslots s List.mem_cons_self
    by_cases hend : a % termLength + s.space = termLength
    · refine ⟨[s], slots, rfl, ?_, ?_, fun _ => List.cons_ne_nil _ _⟩
      · rw [totalSpace_cons, totalSpace_nil]
        omega
      · intro _
        rw [totalSpace_cons, totalSpace_nil]
        omega
    · have hnext : (a + s.space) % termLength = a % termLength + s.space := by
        have hlow := Int.emod_nonneg a (show termLength ≠ 0 by omega)
        have hle := h.1
        rw [← Int.emod_add_emod, Int.emod_eq_of_lt (by omega) (by omega)]
      obtain ⟨row, rest, rfl, hle, hfull, _⟩ := ih (fun t ht => hslots t (List.mem_cons_of_mem s ht)) h.2
        (Int.emod_lt_of_pos _ hpos)
      refine ⟨s :: row, rest, rfl, ?_, ?_, fun _ => List.cons_ne_nil _ _⟩
      · rw [totalSpace_cons]
        omega
      · intro hrest
        have := hfull hrest
        rw [totalSpace_cons]
        omega

/-! ## Consumers -/

/-- A row at a position carries the id of the position's term, and ends where the stream can. -/
structure InTerm (p : StreamParams) (termBuffers : Int → Buffer) (position : Int) (row : List Slot) : Prop where
  stamped : Stamped (fun _ => termIdAt p position) (Image.bufferAt p.toLogParams termBuffers position).bytes
    (position % p.termLength) row
  stop_le : position + totalSpace row ≤ p.maxPossiblePosition

/-- A consumer polls soundly if it passes committed slots from the subscriber position on and moves the
position over them. `Q` is what it knows from the slots consumed and, at its next slot, from those to
come; that slot stays once it is committed. -/
structure Consumer.Sound {σ : Type} (p : StreamParams) (consumer : Consumer σ) (initial : σ)
    (Q : List Slot → List Slot → σ → Prop) : Prop where
  start : Q [] [] initial
  stable : ∀ {consumed live live' : List Slot} {st : σ}, Q consumed live st →
    (∀ s rest, live = s :: rest → s.isPending = false → ∃ rest', live' = s :: rest') → Q consumed live' st
  poll : ∀ {termBuffers : Int → Buffer} {consumed row rest : List Slot} {st : σ} (fragmentLimit : Int),
    Image.Holds p.toLogParams termBuffers p.sessionID (totalSpace consumed) row →
    InTerm p termBuffers (totalSpace consumed) row →
    Light p.termLength.toNat ([], []) (consumed ++ row) → Q consumed (row ++ rest) st →
    ∃ count xs row' st', row = xs ++ row' ∧ Committed xs ∧
      consumer termBuffers ⟨false, totalSpace consumed⟩ fragmentLimit st =
        .ok (count, ⟨false, totalSpace (consumed ++ xs)⟩, st') ∧
      Q (consumed ++ xs) (row' ++ rest) st'

/-! ## The invariant -/

/-- Up to where the log is zero behind the producer's position: a full term has a clean one ahead. -/
def zeroEnd (p : StreamParams) (n off : Int) : Int :=
  if off < p.termLength then (n + 1) * p.termLength else (n + 2) * p.termLength

/-- An open claim is the buffer of a pending entry. -/
def ClaimAt (p : StreamParams) (entries : List Entry) (c : OpenClaim) : Prop :=
  ∃ pre post, entries = pre ++ .record ⟨c.position, .pending (c.claim.frameLength - 32)⟩ :: post ∧
    c.claim.termIndex = totalSpace (slotsOf p.maxPayloadLength pre) / p.termLength % 3 ∧
    c.claim.offset = totalSpace (slotsOf p.maxPayloadLength pre) % p.termLength ∧
    c.claim.frameLength - 32 ≤ p.maxPayloadLength

structure Inv {σ : Type} (p : StreamParams) (Q : List Slot → List Slot → σ → Prop) (s : State σ) (n off : Int)
    (entries : List Entry) (consumed live : List Slot) : Prop where
  logAt : LogAt p s.log n off
  limit : s.publication.limit ≤ totalSpace consumed + p.termLength / 2
  records : s.records = entries.filterMap Entry.record?
  sane : ∀ e ∈ entries, e.Sane p.termLength
  positioned : Positioned p.maxPayloadLength 0 entries
  split : slotsOf p.maxPayloadLength entries = consumed ++ live
  committed : Committed consumed
  image : s.image = ⟨false, totalSpace consumed⟩
  consumer : Q consumed live s.consumer
  laid : Laid p.sessionID (s.log.bytes p) (totalSpace consumed) live (producerPosition p n off)
  stamped : Stamped (termIdAt p) (s.log.bytes p) (totalSpace consumed) live
  fits : Fits p.termLength (totalSpace consumed) live
  window : producerPosition p n off < totalSpace consumed + p.termLength / 2 + maxRequired p
  ahead : 2 * zeroEnd p n off < 2 * totalSpace consumed + 5 * p.termLength
  zero : ∀ x, producerPosition p n off ≤ x → x < zeroEnd p n off → s.log.bytes p x = 0
  claims : ∀ c ∈ s.claims, ClaimAt p entries c
  distinct : (s.claims.map OpenClaim.position).Nodup

theorem StreamParams.maxPayloadLength_pos (p : StreamParams) : 0 < p.maxPayloadLength :=
  Int.lt_of_lt_of_le (by decide) p.maxPayloadLength_ge

namespace Inv

variable {σ : Type} {p : StreamParams} {Q : List Slot → List Slot → σ → Prop} {s : State σ} {n off : Int}
  {entries : List Entry} {consumed live : List Slot}

theorem initial {consumer : Consumer σ} {st : σ} (hsound : consumer.Sound p st Q) :
    Inv p Q (State.initial p st) 0 0 [] [] [] := by
  have hpos := p.termLength_pos
  have hzero : producerPosition p 0 0 = 0 := by
    rw [producerPosition, Int.min_eq_left (Int.le_of_lt hpos), Int.zero_mul, Int.add_zero]
  refine ⟨logAt_initial p, ?_, rfl, ?_, trivial, rfl, ?_, rfl, hsound.start, ?_, trivial, trivial, ?_, ?_, ?_, ?_,
    List.nodup_nil⟩
  · show (0 : Int) ≤ 0 + p.termLength / 2
    omega
  · intro e he
    cases he
  · intro s hs
    cases hs
  · rw [hzero]
    rfl
  · rw [hzero, totalSpace_nil, maxRequired]
    omega
  · rw [zeroEnd, if_pos hpos, totalSpace_nil]
    omega
  · intro x _ _
    rfl
  · intro c hc
    cases hc

variable (h : Inv p Q s n off entries consumed live)

include h

theorem slots_pos : ∀ t ∈ consumed ++ live, 0 < t.space := by
  intro t ht
  rw [← h.split] at ht
  obtain ⟨e, he, ht'⟩ := List.mem_flatMap.mp ht
  exact (Entry.Sane.slots_pos p.maxPayloadLength_pos (h.sane e he)).1 t ht'

theorem position_nonneg : 0 ≤ totalSpace consumed :=
  totalSpace_nonneg fun t ht => h.slots_pos t (List.mem_append_left live ht)

/-- The producer's position is the end of the entries. -/
theorem producerPosition_eq : producerPosition p n off = totalSpace (slotsOf p.maxPayloadLength entries) := by
  rw [h.laid.stop_eq, h.split, totalSpace_append]

theorem position_eq : s.position = totalSpace consumed := by
  rw [State.position, h.image]

/-- The bounds of the producer's position, and of the window in which the log is looked at: three terms, and
none ahead while there is something to read in the last of them. -/
theorem window_bounds : n * p.termLength ≤ producerPosition p n off ∧
    producerPosition p n off ≤ (n + 1) * p.termLength ∧ (n - 2) * p.termLength < totalSpace consumed ∧
    totalSpace consumed ≤ producerPosition p n off := by
  have hahead := h.ahead
  have hle := h.laid.le
  have hoff := h.logAt.off_nonneg
  have hpos := p.termLength_pos
  have h1 := Int.add_mul n 1 p.termLength
  have h2 := Int.sub_mul n 2 p.termLength
  have h3 := Int.add_mul n 2 p.termLength
  unfold zeroEnd at hahead
  unfold producerPosition at hle ⊢
  split at hahead <;> omega

/-! ## Appending -/

omit h in
theorem ClaimAt.append {c : OpenClaim} (hc : ClaimAt p entries c) (es : List Entry) : ClaimAt p (entries ++ es) c := by
  obtain ⟨pre, post, rfl, hplace⟩ := hc
  exact ⟨pre, post ++ es, by rw [List.append_assoc]; rfl, hplace⟩

/-- Entries are written at the producer's position. -/
theorem append {consumer : Consumer σ} {st : σ} (hsound : consumer.Sound p st Q) (t : State σ)
    (es : List Entry) {n' off' : Int} (hlogAt : LogAt p t.log n' off') (himage : t.image = s.image) (hconsumer : t.consumer = s.consumer)
    (hlimit : t.publication.limit = s.publication.limit) (hrecords : t.records = s.records ++ es.filterMap Entry.record?)
    (hsane : ∀ e ∈ es, e.Sane p.termLength)
    (hpositioned : Positioned p.maxPayloadLength (producerPosition p n off) es)
    (hwrote : Wrote p s.log t.log n (producerPosition p n off) (slotsOf p.maxPayloadLength es) (producerPosition p n' off'))
    (hwindow : producerPosition p n' off' < totalSpace consumed + p.termLength / 2 + maxRequired p)
    (hahead : 2 * zeroEnd p n' off' < 2 * totalSpace consumed + 5 * p.termLength)
    (hend : zeroEnd p n' off' ≤ (n + 3) * p.termLength)
    (hzero : ∀ x, producerPosition p n' off' ≤ x → x < zeroEnd p n' off' → s.log.bytes p x = 0)
    (hclaims : ∀ c ∈ t.claims, ClaimAt p (entries ++ es) c) (hdistinct : (t.claims.map OpenClaim.position).Nodup) :
    Inv p Q t n' off' (entries ++ es) consumed (live ++ slotsOf p.maxPayloadLength es) := by
  have hpos := p.termLength_pos
  obtain ⟨hlow, hhigh, hafter, hle⟩ := h.window_bounds
  have hstop := hwrote.laid.le
  have hthree : (n + 3) * p.termLength = (n + 1) * p.termLength + 2 * p.termLength := by ring
  -- what was in the log before is still there
  have hold : ∀ x, totalSpace consumed ≤ x → x < producerPosition p n off → t.log.bytes p x = s.log.bytes p x :=
    fun x lo hi => hwrote.same x (by omega) (by omega) (.inl hi)
  refine ⟨hlogAt, ?_, ?_, ?_, ?_, ?_, h.committed, himage.trans h.image, ?_, ?_, ?_, ?_, hwindow, hahead, ?_,
    hclaims, hdistinct⟩
  · rw [hlimit]
    exact h.limit
  · rw [hrecords, h.records, List.filterMap_append]
  · intro e he
    rcases List.mem_append.mp he with he | he
    · exact h.sane e he
    · exact hsane e he
  · refine h.positioned.append ?_
    rw [Int.zero_add, ← h.producerPosition_eq]
    exact hpositioned
  · rw [slotsOf_append, h.split, List.append_assoc]
  · rw [hconsumer]
    refine hsound.stable h.consumer ?_
    rintro t rest rfl _
    exact ⟨rest ++ slotsOf p.maxPayloadLength es, rfl⟩
  · exact (h.laid.congr hold).append hwrote.laid
  · exact (h.stamped.congr h.laid hold).append (h.laid.congr hold) hwrote.stamped
  · refine h.fits.append ?_
    rw [← h.laid.stop_eq]
    refine Fits.of_term hpos hwrote.laid.space_pos hwrote.inside.1 ?_
    rw [← hwrote.laid.stop_eq]
    exact hwrote.inside.2
  · intro x lo hi
    rw [hwrote.same x (by omega) (by omega) (.inr lo)]
    exact hzero x lo hi

end Inv

end AeronGo.Stream
