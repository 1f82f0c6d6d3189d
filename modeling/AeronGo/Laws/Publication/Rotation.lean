import AeronGo.Laws.Publication.Concurrent

/-!
# Rotation

Which terms the partitions are in, over a whole run: the three terms up to the newest one. A term that is
not the newest was tripped, so the tail of its partition has run past the end. The active term count may
lag behind the newest term by any number of terms, since a publisher that read it long ago can trip a term
and rotate the log without moving the count; it never runs ahead.
-/

namespace AeronGo.Publication

open Machine LogBuffer Util

variable {p : LogParams}

/-- The term count of the last term. -/
def lastTerm : Int := 2147483647

/-! ## Tails -/

/-- The raw tail of a term, with an offset that no trip has carried into the term id. -/
def TailIn (p : LogParams) (n raw : Int) : Prop :=
  termID raw = i32 (p.initialTermId + n) ∧ tailOffset raw < 2147483648

theorem PartitionSound.tailIn {i term tail : Int} (h : PartitionSound p i term tail) : TailIn p term tail :=
  ⟨h.termId, h.bounded⟩

variable {call : Call} {n raw : Int}

theorem termBegin_eq (lo : 0 ≤ n) (hi : n ≤ lastTerm) (h : TailIn p n raw) :
    computeTermBeginPosition (termID raw) p.positionBitsToShift p.initialTermId = n * p.termLength := by
  unfold lastTerm at hi
  rw [computeTermBeginPosition_eq, h.1, i32_sub_left, show p.initialTermId + n - p.initialTermId = n by ring,
    i32_eq (by omega)]

theorem tailPosition_eq (lo : 0 ≤ n) (hi : n ≤ lastTerm) (h : TailIn p n raw) :
    tailPosition p raw = n * p.termLength + tailOffset raw := by
  have hge := p.termLength_ge
  have hle := p.termLength_le
  have hoff := tailOffset_nonneg raw
  have hlt := h.2
  have hbegin : 0 ≤ n * p.termLength := Int.mul_nonneg lo (by omega)
  have hend : n * p.termLength ≤ 2147483647 * 1073741824 := Int.mul_le_mul hi hle (by omega) (by decide)
  rw [tailPosition, termBegin_eq lo hi h]
  exact i64_eq (by omega)

/-- The appender fails exactly when the message does not fit in the rest of the term. -/
theorem appendResult_nonpos (h : call.Accepted p) (claimed : Int) :
    appendResult p call claimed ≤ 0 ↔ p.termLength < tailOffset claimed + call.required p := by
  have hpos := (Call.required_bounds h).1
  have hoff := tailOffset_nonneg claimed
  unfold appendResult
  simp only
  split
  next hlt =>
    refine iff_of_true ?_ hlt
    unfold endOfLogResult
    split <;> decide
  next hle => exact iff_of_false (by omega) hle

theorem indexByTermCount_of_nonneg (h : 0 ≤ n) : indexByTermCount n = n % 3 := Int.tmod_eq_emod_of_nonneg h

/-! ## The invariant -/

/-- A term has tripped: it is not the newest one, or its tail is past its end. -/
def Tripped (p : LogParams) (s : State) (m k : Int) : Prop :=
  k < m ∨ k = m ∧ p.termLength < tailOffset (s.tails (m % 3))

/-- A publisher that read the term count `n` tripped a term of the same partition, and its claim has that
term's id. -/
def Rotates (p : LogParams) (s : State) (m n id : Int) : Prop :=
  ∃ k, id = i32 (p.initialTermId + k) ∧ 0 ≤ n ∧ n ≤ k ∧ k ≤ m ∧ n % 3 = k % 3 ∧ Tripped p s m k

/-- What a publisher's place says of the terms. -/
def PcTurning (p : LogParams) (s : State) (m : Int) : Pc → Prop
  | .readTail _ _ n => 0 ≤ n ∧ n ≤ m
  | .add _ n _ => 0 ≤ n ∧ n ≤ m
  | .write _ _ a => a.resultingOffset ≤ 0 → Rotates p s m a.termCount (termID a.claimed)
  | .rotateRead n id => Rotates p s m n id
  | .rotateSet n id _ => Rotates p s m n id
  | .rotateCount n => 0 ≤ n ∧ n < m
  | _ => True

/-- `m` is the newest term. -/
structure Turning (p : LogParams) (s : State) (m : Int) : Prop where
  log : LogSound p s
  near : ∀ i, 0 ≤ i → i < 3 → m - 3 < s.terms i ∧ s.terms i ≤ m
  nonneg : 0 ≤ m
  le_last : m ≤ lastTerm
  full : ∀ i, 0 ≤ i → i < 3 → 0 ≤ s.terms i → s.terms i < m → p.termLength < tailOffset (s.tails i)
  count : 0 ≤ s.activeTermCount ∧ s.activeTermCount ≤ m
  publishers : ∀ i, PcTurning p s m (s.publishers i)

/-- The log has gone on: to a newer term, or in the newest one. -/
def GoesOn (s : State) (m : Int) (t : State) (m' : Int) : Prop :=
  m < m' ∨ m = m' ∧ tailOffset (s.tails (m % 3)) ≤ tailOffset (t.tails (m % 3))

variable {m m' : Int} {s t : State}

theorem Tripped.mono {k : Int} (h : Tripped p s m k) (hgo : GoesOn s m t m') : Tripped p t m' k := by
  rcases h with hlt | ⟨rfl, htail⟩
  · rcases hgo with hgo | ⟨rfl, _⟩
    · exact .inl (Int.lt_trans hlt hgo)
    · exact .inl hlt
  · rcases hgo with hgo | ⟨rfl, hle⟩
    · exact .inl hgo
    · exact .inr ⟨rfl, Int.lt_of_lt_of_le htail hle⟩

theorem GoesOn.le (h : GoesOn s m t m') : m ≤ m' := by
  rcases h with hlt | ⟨rfl, _⟩
  · exact Int.le_of_lt hlt
  · exact Int.le_refl m

theorem GoesOn.refl (s : State) (m : Int) : GoesOn s m s m := .inr ⟨rfl, Int.le_refl _⟩

/-- In the same terms, the tails only grow. -/
theorem TailsAdvance.goesOn (h : TailsAdvance s t) (hterms : t.terms = s.terms) (m : Int) :
    GoesOn s m t m := by
  refine .inr ⟨rfl, (h (m % 3) (by omega) (by omega)).2 ?_⟩
  rw [hterms]

theorem Rotates.mono {id : Int} (h : Rotates p s m n id) (hgo : GoesOn s m t m') :
    Rotates p t m' n id := by
  obtain ⟨k, hid, hn, hnk, hkm, hres, htripped⟩ := h
  exact ⟨k, hid, hn, hnk, Int.le_trans hkm hgo.le, hres, htripped.mono hgo⟩

/-- What is said of a publisher stays true. -/
theorem PcTurning.mono {pc : Pc} (h : PcTurning p s m pc) (hgo : GoesOn s m t m') :
    PcTurning p t m' pc := by
  have hle := hgo.le
  cases pc with
  | readTail call limit n | add call n raw => exact ⟨h.1, Int.le_trans h.2 hle⟩
  | write left done a => exact fun hfail => (h hfail).mono hgo
  | rotateRead n id | rotateSet n id raw => exact Rotates.mono h hgo
  | rotateCount n => exact ⟨h.1, Int.lt_of_lt_of_le h.2 hle⟩
  | _ => trivial

namespace Turning

variable {s t : State} {m : Int}

/-- The partition of a term count that was read is in that term or a later one. -/
theorem entered (h : Turning p s m) (hi : n ≤ m) :
    n ≤ s.terms (n % 3) ∧ s.terms (n % 3) % 3 = n % 3 := by
  have hres := (h.log.partition (n % 3) (by omega) (by omega)).residue
  have hnear := h.near (n % 3) (by omega) (by omega)
  omega

/-- The only partition in whose tail there is room is that of the newest term. -/
theorem eq_newest (h : Turning p s m) {i : Int} (lo : 0 ≤ i) (hi : i < 3) (hentered : 0 ≤ s.terms i)
    (hroom : tailOffset (s.tails i) ≤ p.termLength) : s.terms i = m := by
  by_contra hne
  have hnear := h.near i lo hi
  exact absurd (h.full i lo hi hentered (by omega)) (Int.not_lt.mpr hroom)

end Turning

theorem turning_initial (p : LogParams) : Turning p (State.initial p) 0 := by
  have hterms : ∀ i : Int, (State.initial p).terms i = if i = 0 then 0 else i - 3 := fun _ => rfl
  refine ⟨logSound_initial p, ?_, Int.le_refl 0, by decide, ?_, ⟨Int.le_refl 0, Int.le_refl 0⟩, fun _ => trivial⟩
  · intro i lo hi
    rw [hterms]
    split <;> omega
  · intro i lo hi hentered hold
    rw [hterms] at hentered hold
    split at hold <;> omega

/-! ## What a step does to the terms -/

inductive Turn (p : LogParams) (s : State) (m : Int) (i : Nat) (t : State) : Prop
  | goto (pc : Pc) (h : t = s.goto i pc) (hpc : PcTurning p s m pc)
  | returned (r : Returned) (h : t = { s.goto i .idle with returned := s.returned ++ [r] })
  | store (f : FrameHeader) (left done : List FrameHeader) (a : Append)
      (hpc : s.publishers i = .write (f :: left) done a) (h : t = storeStep s i f left done a)
  | claim (call : Call) (n raw : Int) (hpc : s.publishers i = .add call n raw) (h : t = addStep p s i call n raw)
  | enter (n id : Int) (hpc : s.publishers i = .rotateSet n id (s.tails (indexByTermCount (i32 (n + 1)))))
      (h : t = enterStep s i n id)
  | count (n : Int) (lo : 0 ≤ n) (hn : n < m)
      (h : t = { s with activeTermCount := i32 (n + 1) }.answer i adminAction)

section Turn

variable {s : State} {m : Int} {i : Nat}

/-- The term id that `RotateLog` compares is three terms before the one it stores. -/
theorem rotate_expected (k : Int) : i32 (i32 (i32 (p.initialTermId + k) + 1) - 3) = i32 (p.initialTermId + (k - 2)) := by
  rw [i32_add_left, i32_sub_left]
  congr 1
  ring

/-- The partition behind that of a term count; the last term has none. -/
theorem nextIndex (lo : 0 ≤ n) (hi : n ≤ lastTerm) (hindex : 0 ≤ indexByTermCount (i32 (n + 1))) :
    indexByTermCount (i32 (n + 1)) = (n + 1) % 3 := by
  by_cases hlast : n = lastTerm
  · rw [hlast] at hindex
    exact absurd hindex (by decide)
  · unfold lastTerm at *
    rw [i32_eq (by omega)]
    exact indexByTermCount_of_nonneg (by omega)

/-- A partition that is not in the term that `RotateLog` expects was rotated by another publisher. -/
theorem Turning.rotated {n id : Int} (hs : Turning p s m) (h : Rotates p s m n id)
    (hindex : 0 ≤ indexByTermCount (i32 (n + 1)))
    (hne : i32 (i32 (id + 1) - 3) ≠ termID (s.tails (indexByTermCount (i32 (n + 1))))) : 0 ≤ n ∧ n < m := by
  obtain ⟨k, rfl, hn, hnk, hkm, hres, _⟩ := h
  refine ⟨hn, ?_⟩
  by_contra hle
  -- the newest term is the one that tripped, and the next partition is still behind it
  obtain rfl : k = m := by omega
  obtain rfl : n = k := by omega
  rw [rotate_expected, nextIndex hn hs.le_last hindex] at hne
  have hpart := hs.log.partition ((n + 1) % 3) (by omega) (by omega)
  have hnear := hs.near ((n + 1) % 3) (by omega) (by omega)
  have hterm : s.terms ((n + 1) % 3) = n - 2 := by
    have := hpart.residue
    omega
  exact hne (by rw [hpart.termId, hterm])

theorem turn_step {t : State} (hs : Turning p s m) (ht : step p s (.step i) = some t) : Turn p s m i t := by
  have hpc := hs.publishers i
  have hmove := move_of_step ht
  generalize hi : s.publishers i = pc at hpc hmove
  cases hmove with
  | panics | enters | readLimit | pressed => exact .goto _ rfl trivial
  | closed | stale | exceeds | readConnected | returns | ends | counted => exact .returned _ rfl
  | readCount => exact .goto _ rfl hs.count
  | passes | readNext | overtaken => exact .goto _ rfl hpc
  | claims => exact .claim _ _ _ hi rfl
  | stores => exact .store _ _ _ _ hi rfl
  | rotates hneg => exact .goto _ rfl (hpc hneg)
  | rotated hindex hne => exact .goto _ rfl (hs.rotated hpc hindex hne)
  | turns => exact .enter _ _ hi rfl
  | counts => exact .count _ hpc.1 hpc.2 rfl

end Turn

/-! ## The invariant is kept -/

namespace Turning

variable {s t : State} {m : Int}

/-- A step that enters no term. -/
theorem stay (h : Turning p s m) (hlog : LogSound p t) (hterms : t.terms = s.terms) (hadvance : TailsAdvance s t)
    (hcount : 0 ≤ t.activeTermCount ∧ t.activeTermCount ≤ m) (hpublishers : ∀ i, PcTurning p t m (t.publishers i)) :
    Turning p t m := by
  refine ⟨hlog, hterms ▸ h.near, h.nonneg, h.le_last, ?_, hcount, hpublishers⟩
  intro i lo hi hentered hold
  obtain ⟨_, hgrown⟩ := hadvance i lo hi
  rw [hterms] at hentered hold hgrown
  exact Int.lt_of_lt_of_le (h.full i lo hi hentered hold) (hgrown rfl)

/-- The claim trips its term if it fails. -/
theorem claim_rotates {i : Nat} (h : Turning p s m) (hi : s.publishers i = .add call n raw)
    (hfail : appendResult p call (s.tails (indexByTermCount n)) ≤ 0) :
    Rotates p (addStep p s i call n raw) m n (termID (s.tails (indexByTermCount n))) := by
  obtain ⟨lo, hle⟩ : 0 ≤ n ∧ n ≤ m := by
    have := h.publishers i
    rwa [hi] at this
  obtain ⟨haccepted, _⟩ : call.Accepted p ∧ 0 ≤ indexByTermCount n := by
    have := h.log.publishers i
    rwa [hi] at this
  obtain ⟨hpos, hmax, haligned⟩ := Call.required_bounds haccepted
  obtain ⟨hentered, hres⟩ := h.entered hle
  have hnear := h.near (n % 3) (by omega) (by omega)
  have hpart := h.log.partition (n % 3) (by omega) (by omega)
  have htrip := (appendResult_nonpos haccepted _).mp hfail
  have hgrown := addStep_tails (p := p) s i call n raw
  rw [indexByTermCount_of_nonneg lo] at htrip hgrown ⊢
  refine ⟨s.terms (n % 3), hpart.termId, lo, hentered, hnear.2, hres.symm, ?_⟩
  by_cases hnewest : s.terms (n % 3) = m
  · refine .inr ⟨hnewest, ?_⟩
    rw [show m % 3 = n % 3 by omega, hgrown, (hpart.add hpos.le hmax haligned).1]
    exact htrip
  · exact .inl (by omega)

/-- The log enters the term behind the newest one. -/
theorem enter {i : Nat} {n id : Int} (h : Turning p s m)
    (hi : s.publishers i = .rotateSet n id (s.tails (indexByTermCount (i32 (n + 1)))))
    (hlog : LogSound p (enterStep s i n id))
    (hlast : ∀ j, 0 ≤ j → j < 3 → (enterStep s i n id).terms j ≤ lastTerm) :
    Turning p (enterStep s i n id) (m + 1) := by
  obtain ⟨k, rfl, lo, hnk, hkm, hres, htripped⟩ : Rotates p s m n id := by
    have := h.publishers i
    rwa [hi] at this
  obtain ⟨hindex, hid⟩ : 0 ≤ indexByTermCount (i32 (n + 1)) ∧ i32 (i32 (i32 (p.initialTermId + k) + 1) - 3) =
      termID (s.tails (indexByTermCount (i32 (n + 1)))) := by
    have := h.log.publishers i
    rwa [hi] at this
  have hnext := nextIndex lo (Int.le_trans (Int.le_trans hnk hkm) h.le_last) hindex
  have hpart := h.log.partition ((n + 1) % 3) (by omega) (by omega)
  have hnear := h.near ((n + 1) % 3) (by omega) (by omega)
  have hbounds := h.nonneg
  have hle := h.le_last
  unfold lastTerm at hle
  -- the compared term id is that of the partition's own term
  have hterm : s.terms ((n + 1) % 3) = k - 2 := by
    rw [rotate_expected, hnext, hpart.termId, i32_eq_iff] at hid
    omega
  obtain rfl : k = m := by omega
  have hterms : ∀ j, (enterStep s i n (i32 (p.initialTermId + k))).terms j =
      if j = (n + 1) % 3 then s.terms j + 3 else s.terms j := by
    intro j
    simp only [enterStep, hnext]
  have htails : ∀ j, j ≠ (n + 1) % 3 → (enterStep s i n (i32 (p.initialTermId + k))).tails j = s.tails j := by
    intro j hj
    simp only [enterStep, hnext, if_neg hj]
  have hentered : (enterStep s i n (i32 (p.initialTermId + k))).terms ((n + 1) % 3) = k + 1 := by
    rw [hterms, if_pos rfl, hterm]
    ring
  have hmono : ∀ j, PcTurning p (enterStep s i n (i32 (p.initialTermId + k))) (k + 1) (s.publishers j) := fun j =>
    (h.publishers j).mono (.inl (by omega))
  refine ⟨hlog, ?_, by omega, hentered ▸ hlast ((n + 1) % 3) (by omega) (by omega), ?_, ⟨h.count.1, ?_⟩, ?_⟩
  · intro j hj hj'
    have hjnear := h.near j hj hj'
    have hjres := (h.log.partition j hj hj').residue
    rw [hterms]
    split
    next he => rw [he, hterm]; omega
    next he => omega
  · intro j hj hj' hjentered hold
    have hjres := (h.log.partition j hj hj').residue
    rw [hterms] at hjentered hold
    by_cases he : j = (n + 1) % 3
    · rw [if_pos he, he, hterm] at hold
      omega
    · rw [if_neg he] at hjentered hold
      rw [htails j he]
      by_cases hnewest : s.terms j = k
      · have hfull := (htripped.resolve_left (Int.lt_irrefl k)).2
        rwa [show k % 3 = j by omega] at hfull
      · exact h.full j hj hj' hjentered (by omega)
  · exact Int.le_trans h.count.2 (by omega)
  · exact forall_moved hmono ⟨lo, by omega⟩

end Turning

/-! ## Runs -/

/-- No partition has gone past the last term. -/
def InTerms (s : State) : Prop := ∀ i ∈ [0, 1, 2], s.terms i ≤ lastTerm

instance (s : State) : Decidable (InTerms s) := inferInstanceAs (Decidable (∀ i ∈ [0, 1, 2], _))

/-- A step that leaves the tails bounded and the partitions in the terms of the log. -/
def StaysInTerms (p : LogParams) (s : State) (a : Action) : Prop :=
  StaysBounded p s a ∧ (step p s a).all fun t => InTerms t

instance (s : State) (a : Action) : Decidable (StaysInTerms p s a) := inferInstanceAs (Decidable (_ ∧ _ = true))

theorem StaysInTerms.le_last {a : Action} (h : StaysInTerms p s a) (ht : step p s a = some t) {i : Int}
    (lo : 0 ≤ i) (hi : i < 3) : t.terms i ≤ lastTerm := by
  have hall := h.2
  rw [ht] at hall
  refine of_decide_eq_true hall i ?_
  have hi : i = 0 ∨ i = 1 ∨ i = 2 := by omega
  rcases hi with rfl | rfl | rfl <;> decide

/-- A step of the publishers. -/
theorem Turning.step {a : Action} (h : Turning p s m) (hstays : StaysInTerms p s a)
    (ht : Publication.step p s a = some t) : ∃ m', GoesOn s m t m' ∧ Turning p t m' := by
  have hlog := h.log.step hstays.1 ht
  have hadvance := h.log.tailsAdvance ht
  -- a step that enters no term and moves at most one publisher
  have hstay : ∀ {i : Nat} {pc : Pc}, t.terms = s.terms →
      (0 ≤ t.activeTermCount ∧ t.activeTermCount ≤ m) →
      t.publishers = (fun j => if j = i then pc else s.publishers j) → PcTurning p t m pc →
      ∃ m', GoesOn s m t m' ∧ Turning p t m' := by
    intro i pc hterms hcount hpublishers hpc
    have hgo := hadvance.goesOn hterms m
    refine ⟨m, hgo, h.stay hlog hterms hadvance hcount ?_⟩
    rw [hpublishers]
    exact forall_moved (fun j => (h.publishers j).mono hgo) hpc
  cases a with
  | invoke i call =>
    simp only [Publication.step] at ht
    split at ht
    · cases ht
      exact hstay rfl h.count rfl trivial
    · cases ht
  | driver limit connected closed =>
    cases ht
    exact ⟨m, .refl s m, h.stay hlog rfl hadvance h.count h.publishers⟩
  | step i =>
    cases turn_step h ht with
    | goto pc he hpc =>
      subst he
      exact hstay rfl h.count rfl (hpc.mono (.refl s m))
    | returned r he =>
      subst he
      exact hstay rfl h.count rfl trivial
    | store f left done a hpc he =>
      subst he
      have hwrite := h.publishers i
      rw [hpc] at hwrite
      exact hstay rfl h.count rfl (PcTurning.mono (show PcTurning p s m (.write left (done ++ [f]) a) from hwrite) (.refl s m))
    | claim call n raw hpc he =>
      subst he
      exact hstay rfl h.count rfl fun hfail => h.claim_rotates hpc hfail
    | enter n id hpc he =>
      subst he
      exact ⟨m + 1, .inl (by omega), h.enter hpc hlog fun j lo hi => hstays.le_last ht lo hi⟩
    | count n lo hn he =>
      subst he
      have hword : i32 (n + 1) = n + 1 := by
        have := h.le_last
        unfold lastTerm at this
        exact i32_eq (by omega)
      have hcount : 0 ≤ i32 (n + 1) ∧ i32 (n + 1) ≤ m := by
        rw [hword]
        omega
      exact hstay rfl hcount rfl trivial

end AeronGo.Publication
