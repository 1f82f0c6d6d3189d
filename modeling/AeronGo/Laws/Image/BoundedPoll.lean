import AeronGo.Laws.Image.Poll

/-!
# The limit of a bounded poll

`BoundedPoll` narrows the distance to its limit to 32 bits before it compares. `RespectsLimit` is what
it promises for a 64-bit limit; `boundedPoll_respectsLimit_iff` says when it keeps that promise: when
the narrowed limit and the limit itself agree on every frame that an unbounded poll would pass. Within
2 GiB of the position they are the same limit (`narrowedLimit_eq`); 4 GiB away they are not
(`limit_narrowed`).
-/

namespace AeronGo.Image

open Machine Util Atomic LogBuffer

variable {p : LogParams} {termBuffers : Int → Buffer} {sessionId position : Int} {slots : List Slot}

/-- Close to the position the narrowed limit is the limit. -/
theorem narrowedLimit_eq {limitPosition : Int} (lo : -2147483648 ≤ limitPosition - position)
    (hi : limitPosition - position + p.termLength ≤ 2147483648) :
    narrowedLimit p position limitPosition = limitPosition := by
  have hge := p.termLength_ge
  have hoff := Int.emod_nonneg position (show p.termLength ≠ 0 by omega)
  have hlt := Int.emod_lt_of_pos position (show 0 < p.termLength by omega)
  have hdistance : i32 (i64 (limitPosition - position)) = limitPosition - position := by
    rw [i64_eq (by omega), i32_eq (by omega)]
  rw [narrowedLimit, hdistance, i32_eq (by omega), termBegin]
  omega

/-! ## Two limits -/

/-- Limits that agree on what an unbounded poll passes cut off the same. -/
theorem passed_min_of_agree {fragmentLimit bound low low' : Int}
    (h : ∀ x ∈ passed fragmentLimit bound position slots, (x.1 < low ↔ x.1 < low')) :
    passed fragmentLimit (min low bound) position slots =
      passed fragmentLimit (min low' bound) position slots := by
  rw [passed_min, passed_min]
  generalize passed fragmentLimit bound position slots = xs at h
  induction xs with
  | nil => rfl
  | cons x xs ih =>
    have hhead : decide (x.1 < low) = decide (x.1 < low') := decide_eq_decide.mpr (h x List.mem_cons_self)
    rw [List.takeWhile_cons, List.takeWhile_cons, hhead, ih fun y hy => h y (List.mem_cons_of_mem x hy)]

/-- Nothing is passed before the position. -/
theorem le_of_mem_passed (bound : Int) :
    ∀ (slots : List Slot) (fragmentLimit position : Int), (∀ s ∈ slots, 0 < s.space) →
      ∀ x ∈ passed fragmentLimit bound position slots, position ≤ x.1 := by
  intro slots
  induction slots with
  | nil =>
    intro fragmentLimit position _ x hx
    cases hx
  | cons s slots ih =>
    intro fragmentLimit position hs x hx
    by_cases hr : 0 < fragmentLimit ∧ readable bound (position, s) = true
    · rw [passed_cons_of_readable hr.1 hr.2] at hx
      cases hx with
      | head => exact Int.le_refl _
      | tail _ hx =>
        have hspace := hs s List.mem_cons_self
        have hrest := ih _ _ (fun t ht => hs t (List.mem_cons_of_mem s ht)) x hx
        omega
    · rw [passed_cons_of_stuck hr] at hx
      cases hx

theorem spaceOf_passed_nonneg (bound : Int) :
    ∀ (slots : List Slot) (fragmentLimit position : Int), (∀ s ∈ slots, 0 < s.space) →
      0 ≤ spaceOf (passed fragmentLimit bound position slots) := by
  intro slots
  induction slots with
  | nil => exact fun _ _ _ => Int.le_refl 0
  | cons s slots ih =>
    intro fragmentLimit position hs
    rw [passed_cons]
    split
    · exact Int.add_nonneg (Int.le_of_lt (hs s List.mem_cons_self))
        (ih _ _ fun t ht => hs t (List.mem_cons_of_mem s ht))
    · exact Int.le_refl 0

/-- Conversely, limits that cut off the same length agree. -/
theorem agree_of_spaceOf_eq (bound low low' : Int) :
    ∀ (slots : List Slot) (fragmentLimit position : Int), (∀ s ∈ slots, 0 < s.space) →
      spaceOf (passed fragmentLimit (min low bound) position slots) =
        spaceOf (passed fragmentLimit (min low' bound) position slots) →
      ∀ x ∈ passed fragmentLimit bound position slots, (x.1 < low ↔ x.1 < low') := by
  intro slots
  induction slots with
  | nil =>
    intro fragmentLimit position _ _ x hx
    cases hx
  | cons s slots ih =>
    intro fragmentLimit position hs heq x hx
    have hspace := hs s List.mem_cons_self
    have hrest : ∀ t ∈ slots, 0 < t.space := fun t ht => hs t (List.mem_cons_of_mem s ht)
    by_cases hr : 0 < fragmentLimit ∧ readable bound (position, s) = true
    · have hle : position ≤ x.1 := le_of_mem_passed bound _ _ _ hs x hx
      -- a limit passes the head exactly when it is above the position
      have hcut : ∀ l, spaceOf (passed fragmentLimit (min l bound) position (s :: slots)) =
          if position < l then s.space + spaceOf (passed (if s.isData then fragmentLimit - 1 else fragmentLimit)
            (min l bound) (position + s.space) slots) else 0 := by
        intro l
        rw [passed_min, passed_cons_of_readable hr.1 hr.2, List.takeWhile_cons]
        by_cases hl : position < l
        · simp [hl, passed_min]
        · simp [hl]
      rw [passed_cons_of_readable hr.1 hr.2] at hx
      rw [hcut low, hcut low'] at heq
      have hnn := fun l => spaceOf_passed_nonneg (min l bound) slots
        (if s.isData then fragmentLimit - 1 else fragmentLimit) (position + s.space) hrest
      have h1 := hnn low
      have h2 := hnn low'
      by_cases hl : position < low <;> by_cases hl' : position < low'
      · rw [if_pos hl, if_pos hl'] at heq
        cases hx with
        | head => exact ⟨fun _ => hl', fun _ => hl⟩
        | tail _ hx => exact ih _ _ hrest (by omega) x hx
      · rw [if_pos hl, if_neg hl'] at heq
        omega
      · rw [if_neg hl, if_pos hl'] at heq
        omega
      · constructor <;> intro <;> omega
    · rw [passed_cons_of_stuck hr] at hx
      cases hx

/-! ## The promise -/

/-- What a bounded poll promises for a limit: exactly the fragments of the frames that start below the
limit and in the position's term, in order and up to the fragment limit, with the position moved over
what was passed; so nothing at all for a limit at the position or below, and no difference to a poll
for a limit at the end of the term or beyond. -/
structure RespectsLimit (p : LogParams) (termBuffers : Int → Buffer) (position : Int) (slots : List Slot)
    (limitPosition fragmentLimit : Int) : Prop where
  delivers : ∀ (σ : Type) (handler : FragmentHandler σ) (st : σ),
    boundedPoll p termBuffers ⟨false, position⟩ handler limitPosition fragmentLimit st =
      outcome p termBuffers position handler st
        (passed fragmentLimit (min limitPosition (termEnd p position)) position slots)
  below : limitPosition ≤ position → ∀ (σ : Type) (handler : FragmentHandler σ) (st : σ),
    boundedPoll p termBuffers ⟨false, position⟩ handler limitPosition fragmentLimit st =
      .ok (0, ⟨false, position⟩, st)
  beyond : termEnd p position ≤ limitPosition → ∀ (σ : Type) (handler : FragmentHandler σ) (st : σ),
    boundedPoll p termBuffers ⟨false, position⟩ handler limitPosition fragmentLimit st =
      poll p termBuffers ⟨false, position⟩ handler fragmentLimit st

/-- The main promise gives the two special cases. -/
theorem Holds.respectsLimit (h : Holds p termBuffers sessionId position slots) {limitPosition fragmentLimit : Int}
    (hd : ∀ (σ : Type) (handler : FragmentHandler σ) (st : σ),
      boundedPoll p termBuffers ⟨false, position⟩ handler limitPosition fragmentLimit st =
        outcome p termBuffers position handler st
          (passed fragmentLimit (min limitPosition (termEnd p position)) position slots)) :
    RespectsLimit p termBuffers position slots limitPosition fragmentLimit := by
  refine ⟨hd, ?_, ?_⟩
  · intro hle σ handler st
    have hnone : passed fragmentLimit (min limitPosition (termEnd p position)) position slots = [] := by
      cases slots with
      | nil => rfl
      | cons s slots =>
        refine passed_cons_of_stuck ?_
        simp only [readable, Bool.and_eq_true, decide_eq_true_eq]
        omega
    rw [hd, hnone, outcome, spaceOf_nil, Int.add_zero]
    rfl
  · intro hge σ handler st
    rw [hd, poll_eq h, Int.min_eq_right hge]

/-- **A bounded poll keeps its promise exactly when the narrowed limit agrees with the limit** on the
frames that a poll without a limit would pass. -/
theorem boundedPoll_respectsLimit_iff (h : Holds p termBuffers sessionId position slots)
    (limitPosition fragmentLimit : Int) :
    RespectsLimit p termBuffers position slots limitPosition fragmentLimit ↔
      ∀ x ∈ passed fragmentLimit (termEnd p position) position slots,
        (x.1 < narrowedLimit p position limitPosition ↔ x.1 < limitPosition) := by
  constructor
  · intro hr
    -- a handler that only returns shows how far the poll went
    have hrun := hr.delivers Unit (fun st _ _ _ _ => .ok st) ()
    rw [boundedPoll_eq h] at hrun
    have hfold : ∀ (buf : Buffer) (begin' : Int) (xs : List (Int × Slot)),
        xs.foldlM (deliver (fun st _ _ _ _ => .ok st) buf begin') () = .ok () := by
      intro buf begin' xs
      induction xs with
      | nil => rfl
      | cons x xs ih =>
        obtain ⟨start, s⟩ := x
        cases s <;> exact ih
    simp only [outcome, hfold, ok_bind, pure, Except.pure, Except.ok.injEq, Prod.mk.injEq, Image.mk.injEq] at hrun
    exact agree_of_spaceOf_eq _ _ _ _ _ _ h.row.laid.space_pos (by omega)
  · intro hagree
    refine h.respectsLimit ?_
    intro σ handler st
    rw [boundedPoll_eq h, passed_min_of_agree hagree]

/-! ## A limit 4 GiB away -/

/-- A term that holds one empty message. -/
def oneFrame : Buffer where
  bytes := put 4 (putUInt8 (put 2 (fun _ => 0) 6 1) 5 unfragmented) 0 32
  length := 65536

theorem oneFrame_holds (position : Int) (lo : 0 ≤ position) (hi : position ≤ LogParams.smallest.maxPossiblePosition)
    (hbegin : position % 65536 = 0) :
    Holds LogParams.smallest (fun _ => oneFrame) 0 position [.data unfragmented []] := by
  have hoff : position % LogParams.smallest.termLength = 0 := hbegin
  refine ⟨lo, hi, rfl, ?_⟩
  rw [hoff]
  have hslot : (Slot.data unfragmented []).At 0 oneFrame.bytes 0 :=
    ⟨by decide, by decide, by decide, by decide, rfl⟩
  have hrow : Row 0 oneFrame 0 [.data unfragmented []] :=
    Row.mk (by unfold Addressable; decide) (Int.le_refl 0) (by decide) ⟨hslot, rfl⟩ (by decide)
      (by decide)
  exact hrow

/-- The number of fragments that a handler was called on. -/
def counting : FragmentHandler Nat := fun n _ _ _ _ => .ok (n + 1)

/-- A limit between the fragments of a message: the poll ends before the second one. -/
theorem boundedPoll_respectsLimit_next_frame :
    RespectsLimit LogParams.smallest (fun _ => splitTerm) 0 splitSlots 96 10 ∧
    passed 10 65536 0 splitSlots = [(0, .data beginFrag [1, 2]), (64, .padding 32), (96, .data endFrag [3])] ∧
    boundedPoll LogParams.smallest (fun _ => splitTerm) ⟨false, 0⟩ counting 96 10 0 = .ok (1, ⟨false, 96⟩, 1) := by
  have hlimit : RespectsLimit LogParams.smallest (fun _ => splitTerm) 0 splitSlots 96 10 := by
    refine (boundedPoll_respectsLimit_iff splitTerm_holds 96 10).mpr ?_
    intro x _
    rw [narrowedLimit_eq (by decide) (by decide)]
  refine ⟨hlimit, by decide, ?_⟩
  rw [hlimit.delivers Nat counting 0]
  rfl

/-- 4 GiB above the position the limit is taken for the position, and nothing is delivered that a poll
would deliver; 4 GiB below the end of a frame the frame is delivered, though it starts above the limit. -/
theorem limit_narrowed :
    Holds LogParams.smallest (fun _ => oneFrame) 0 0 [.data unfragmented []] ∧
    boundedPoll LogParams.smallest (fun _ => oneFrame) ⟨false, 0⟩ counting 4294967296 10 0 =
      .ok (0, ⟨false, 0⟩, 0) ∧
    ¬RespectsLimit LogParams.smallest (fun _ => oneFrame) 0 [.data unfragmented []] 4294967296 10 ∧
    Holds LogParams.smallest (fun _ => oneFrame) 0 4294967296 [.data unfragmented []] ∧
    boundedPoll LogParams.smallest (fun _ => oneFrame) ⟨false, 4294967296⟩ counting 32 10 0 =
      .ok (1, ⟨false, 4294967328⟩, 1) ∧
    ¬RespectsLimit LogParams.smallest (fun _ => oneFrame) 4294967296 [.data unfragmented []] 32 10 := by
  have hnear := oneFrame_holds 0 (by decide) (by decide) rfl
  have hfar := oneFrame_holds 4294967296 (by decide) (by decide) rfl
  have hnothing : boundedPoll LogParams.smallest (fun _ => oneFrame) ⟨false, 0⟩ counting 4294967296 10 0 =
      .ok (0, ⟨false, 0⟩, 0) := by
    rw [boundedPoll_eq hnear]
    rfl
  have hfrom : boundedPoll LogParams.smallest (fun _ => oneFrame) ⟨false, 4294967296⟩ counting 32 10 0 =
      .ok (1, ⟨false, 4294967328⟩, 1) := by
    rw [boundedPoll_eq hfar]
    rfl
  refine ⟨hnear, hnothing, ?_, hfar, hfrom, ?_⟩
  · intro hr
    have hpromise := hr.delivers Nat counting 0
    rw [hnothing] at hpromise
    cases hpromise
  · intro hr
    have hpromise := hr.below (by decide) Nat counting 0
    rw [hfrom] at hpromise
    cases hpromise

end AeronGo.Image
