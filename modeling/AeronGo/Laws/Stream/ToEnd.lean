import AeronGo.Laws.Stream.Steps

/-!
# Polling with a handler

A consumer that polls its image with one handler, and that may stop for good. It is enough to say what the
handler makes of one slot (`Observes`): then the consumer polls soundly (`Observes.sound`), and polls that
go on bring it to the end of a log without open claims, or to where it stops (`Observes.polls_to_end`).
-/

namespace AeronGo.Stream

open Machine Util Atomic LogBuffer

variable {σ : Type}

/-- Poll the image, unless stopped. The fragment limit may be one of the consumer's own. -/
def polling (p : StreamParams) (handler : FragmentHandler σ) (stopped : σ → Bool) (limitOf : Int → Int) : Consumer σ :=
  fun termBuffers image fragmentLimit st =>
    if stopped st then .ok (0, image, st)
    else image.poll p.toLogParams termBuffers handler (limitOf fragmentLimit) st

/-- The next slot of a stream lies behind those consumed, in the buffer of its term, whose id it
carries. -/
structure Next (p : StreamParams) (buf : Buffer) (termBegin offset : Int) (consumed : List Slot) : Prop where
  length_eq : buf.length = p.termLength
  begins : termBegin % p.termLength = 0
  place : totalSpace consumed = termBegin + offset
  nonneg : 0 ≤ totalSpace consumed
  termId : getInt32 buf.bytes (offset + 20) = termIdAt p (totalSpace consumed)
  below : totalSpace consumed < p.maxPossiblePosition

/-- A handler takes what is known of the slots consumed over each further slot. -/
structure Observes (p : StreamParams) (handler : FragmentHandler σ) (Q : List Slot → List Slot → σ → Prop) : Prop where
  stable : ∀ {consumed live live' : List Slot} {st : σ}, Q consumed live st → Q consumed live' st
  deliver : ∀ {buf : Buffer} {offset : Int} {s : Slot} {slots consumed live : List Slot} {st : σ} (termBegin : Int),
    Row p.sessionID buf offset (s :: slots) → Next p buf termBegin offset consumed →
    Light p.termLength.toNat ([], []) (consumed ++ s :: slots) → Q consumed live st →
    ∃ st', LogBuffer.deliver handler buf termBegin st (termBegin + offset, s) = .ok st' ∧ Q (consumed ++ [s]) live st'

/-- Poll with one limit after the other. -/
def pollEach (p : StreamParams) (consumer : Consumer σ) (limits : List Int) (s : State σ) : Except Stop (State σ) :=
  limits.foldlM (fun s fragmentLimit => step p consumer s (.poll fragmentLimit)) s

namespace Observes

variable {p : StreamParams} {handler : FragmentHandler σ} {Q : List Slot → List Slot → σ → Prop}
  (hobserves : Observes p handler Q)

include hobserves

/-- The slots of a row that are passed, one after the other. -/
theorem passed {buf : Buffer} {termBegin : Int} (hlength : buf.length = p.termLength)
    (hbegins : termBegin % p.termLength = 0) (bound fragmentLimit : Int) {slots consumed live : List Slot} {offset : Int}
    {st : σ} (hrow : Row p.sessionID buf offset slots) (hplace : totalSpace consumed = termBegin + offset)
    (hstamped : Stamped (fun _ => termIdAt p termBegin) buf.bytes offset slots)
    (hnonneg : 0 ≤ totalSpace consumed) (hstop : totalSpace consumed + totalSpace slots ≤ p.maxPossiblePosition) (hlight : Light p.termLength.toNat ([], []) (consumed ++ slots))
    (hst : Q consumed live st) :
    ∃ st', (LogBuffer.passed fragmentLimit bound (termBegin + offset) slots).foldlM
        (LogBuffer.deliver handler buf termBegin) st = .ok st' ∧
      Q (consumed ++ (LogBuffer.passed fragmentLimit bound (termBegin + offset) slots).map Prod.snd) live st' := by
  induction slots generalizing fragmentLimit offset consumed st with
  | nil =>
    refine ⟨st, rfl, ?_⟩
    simpa [LogBuffer.passed, starts, upToFragments] using hst
  | cons s slots ih =>
    by_cases hgo : 0 < fragmentLimit ∧ readable bound (termBegin + offset, s) = true
    · have hspace := Slot.space_bounds hrow.at_head.frameLength_ge
      have hrest := hrow.laid.2.le
      have hin := hrow.head_inside
      have hoffset := hrow.offset_nonneg
      rw [totalSpace_cons] at hstop hrest
      have hnextSlot : Next p buf termBegin offset consumed := by
        refine ⟨hlength, hbegins, hplace, hnonneg, ?_, by omega⟩
        rw [hplace, termIdAt_term hbegins hoffset (by omega)]
        exact hstamped.1
      obtain ⟨st', hdeliver, hst'⟩ := hobserves.deliver termBegin hrow hnextSlot hlight hst
      rw [show consumed ++ s :: slots = (consumed ++ [s]) ++ slots by simp] at hlight
      have hnext : totalSpace (consumed ++ [s]) = termBegin + (offset + s.space) := by
        rw [totalSpace_append, totalSpace_cons, totalSpace_nil]
        omega
      obtain ⟨st'', hfold, hst''⟩ := ih (if s.isData then fragmentLimit - 1 else fragmentLimit) hrow.tail hnext
        hstamped.2 (by omega) (by omega) hlight hst'
      rw [← Int.add_assoc] at hfold hst''
      rw [passed_cons_of_readable hgo.1 hgo.2]
      refine ⟨st'', ?_, ?_⟩
      · rw [List.foldlM_cons, hdeliver]
        exact hfold
      · rw [List.map_cons, List.append_cons]
        exact hst''
    · rw [passed_cons_of_stuck hgo]
      exact ⟨st, rfl, by simpa using hst⟩

/-- A poll passes slots as `Image.Poll` does. -/
theorem poll {termBuffers : Int → Buffer} {consumed row live : List Slot} {st : σ} (fragmentLimit : Int)
    (hholds : Image.Holds p.toLogParams termBuffers p.sessionID (totalSpace consumed) row)
    (hterm : InTerm p termBuffers (totalSpace consumed) row)
    (hlight : Light p.termLength.toNat ([], []) (consumed ++ row)) (hst : Q consumed live st) :
    ∃ xs row' st', row = xs ++ row' ∧
      xs = (LogBuffer.passed fragmentLimit (Image.termEnd p.toLogParams (totalSpace consumed)) (totalSpace consumed)
        row).map Prod.snd ∧
      (∃ count, Image.poll p.toLogParams termBuffers ⟨false, totalSpace consumed⟩ handler fragmentLimit st =
        .ok (count, ⟨false, totalSpace (consumed ++ xs)⟩, st')) ∧
      Q (consumed ++ xs) live st' := by
  have hbegin : Image.termBegin p.toLogParams (totalSpace consumed) + totalSpace consumed % p.termLength =
    totalSpace consumed := Int.sub_add_cancel _ _
  have hbegins : Image.termBegin p.toLogParams (totalSpace consumed) % p.termLength = 0 :=
    Int.emod_eq_zero_of_dvd Int.dvd_self_sub_emod
  have hstamped := hterm.stamped
  have hid : termIdAt p (totalSpace consumed) = termIdAt p (Image.termBegin p.toLogParams (totalSpace consumed)) := by
    have hpos := p.termLength_pos
    rw [← termIdAt_term hbegins (Int.emod_nonneg _ (Int.ne_of_gt hpos)) (Int.emod_lt_of_pos _ hpos), hbegin]
  rw [hid] at hstamped
  obtain ⟨st', hfold, hst'⟩ := hobserves.passed hholds.length_eq hbegins
    (Image.termEnd p.toLogParams (totalSpace consumed)) fragmentLimit hholds.row hbegin.symm hstamped
    hholds.position_nonneg hterm.stop_le hlight hst
  rw [hbegin] at hfold hst'
  obtain ⟨row', hsplit⟩ := Image.passed_isPrefix fragmentLimit (Image.termEnd p.toLogParams (totalSpace consumed)) row
    (totalSpace consumed)
  refine ⟨_, row', st', hsplit, rfl, ⟨fragmentCount ((LogBuffer.passed fragmentLimit
    (Image.termEnd p.toLogParams (totalSpace consumed)) (totalSpace consumed) row).map Prod.snd), ?_⟩, hst'⟩
  rw [Image.poll_eq hholds, Image.outcome, hfold, totalSpace_append]
  rfl

/-- **A handler that observes the slots makes a sound consumer.** -/
theorem sound {initial : σ} (hstart : Q [] [] initial) (stopped : σ → Bool) (limitOf : Int → Int) :
    (polling p handler stopped limitOf).Sound p initial Q where
  start := hstart
  stable := fun h _ => hobserves.stable h
  poll := by
    intro termBuffers consumed row rest st fragmentLimit hholds hterm hlight hst
    cases hstopped : stopped st with
    | true =>
      refine ⟨0, [], row, st, rfl, ?_, ?_, ?_⟩
      · intro s hs
        cases hs
      · rw [polling, hstopped, if_pos rfl, List.append_nil]
      · rw [List.append_nil]
        exact hst
    | false =>
      obtain ⟨xs, row', st', hsplit, hxs, ⟨count, hpoll⟩, hst'⟩ := hobserves.poll (limitOf fragmentLimit) hholds hterm hlight
        hst
      refine ⟨count, xs, row', st', hsplit, ?_, ?_, hobserves.stable hst'⟩
      · rw [hxs]
        exact passed_committed _ _ _ _
      · rw [polling, hstopped, if_neg Bool.false_ne_true]
        exact hpoll

variable (stopped : σ → Bool) (limitOf : Int → Int) (hlimitOf : ∀ l, 0 < l → 0 < limitOf l) {s : State σ}
  {n off : Int} {entries : List Entry} {consumed live : List Slot} (h : Inv p Q s n off entries consumed live)

include hlimitOf h

/-- A poll passes at least one committed slot, unless the consumer has stopped. -/
theorem poll_passes (hstopped : stopped s.consumer = false) (hcommitted : Committed live) (hlive : live ≠ [])
    {fragmentLimit : Int} (hlimit : 0 < fragmentLimit) :
    ∃ t xs live', step p (polling p handler stopped limitOf) s (.poll fragmentLimit) = .ok t ∧ xs ≠ [] ∧
      live = xs ++ live' ∧ Inv p Q t n off entries (consumed ++ xs) live' := by
  obtain ⟨row, rest, rfl, hne, hholds, hterm⟩ := h.holds
  have hlight := h.light
  rw [← List.append_assoc] at hlight
  obtain ⟨xs, row', st', hsplit, hxs, ⟨count, hpoll⟩, hst'⟩ := hobserves.poll (limitOf fragmentLimit) hholds hterm
    hlight.left h.consumer
  have hpassed : Committed xs := by
    rw [hxs]
    exact passed_committed _ _ _ _
  have hsplit' : row ++ rest = xs ++ (row' ++ rest) := by
    rw [← List.append_assoc, ← hsplit]
  refine ⟨_, xs, row' ++ rest, ?_, ?_, hsplit', h.moved hsplit' hpassed (hobserves.stable hst')⟩
  · rw [← h.image] at hpoll
    simp only [step, polling, hstopped, Bool.false_eq_true, if_false]
    rw [hpoll]
    rfl
  · obtain ⟨first, more, rfl⟩ := List.exists_cons_of_ne_nil (hne hlive)
    have hread : readable (Image.termEnd p.toLogParams (totalSpace consumed)) (totalSpace consumed, first) = true := by
      have hlt := Int.emod_lt_of_pos (totalSpace consumed) p.termLength_pos
      have hbelow : totalSpace consumed < Image.termEnd p.toLogParams (totalSpace consumed) := by
        unfold Image.termEnd Image.termBegin
        omega
      simp [readable, hbelow, hcommitted first (List.mem_append_left rest List.mem_cons_self)]
    rw [hxs, passed_cons_of_readable (hlimitOf _ hlimit) hread]
    exact List.cons_ne_nil _ _

/-- **Enough polls read to the end**, or to where the consumer stops. -/
theorem polls_to_end {initial : σ} (hstart : Q [] [] initial) (hcommitted : Committed live) {limits : List Int} (hcount : live.length ≤ limits.length)
    (hlimits : ∀ l ∈ limits, 0 < l) :
    ∃ t consumed' live', pollEach p (polling p handler stopped limitOf) limits s = .ok t ∧
      Inv p Q t n off entries consumed' live' ∧ (live' = [] ∨ stopped t.consumer = true) := by
  induction limits generalizing s consumed live with
  | nil =>
    obtain rfl : live = [] := List.length_eq_zero_iff.mp (Nat.le_zero.mp hcount)
    exact ⟨s, consumed, [], rfl, h, .inl rfl⟩
  | cons l limits ih =>
    have hl := hlimits l List.mem_cons_self
    have hrest := fun l' hl' => hlimits l' (List.mem_cons_of_mem l hl')
    have hcons : ∀ t, step p (polling p handler stopped limitOf) s (.poll l) = .ok t →
        pollEach p (polling p handler stopped limitOf) (l :: limits) s =
          pollEach p (polling p handler stopped limitOf) limits t := by
      intro t ht
      rw [pollEach, List.foldlM_cons, ht]
      rfl
    cases hstopped : stopped s.consumer with
    | true =>
      -- nothing is polled any more
      have hsame : ∀ l', step p (polling p handler stopped limitOf) s (.poll l') = .ok s := by
        intro l'
        simp only [step, polling, hstopped, if_true]
        rfl
      have hstay : ∀ limits, pollEach p (polling p handler stopped limitOf) limits s = .ok s := by
        intro limits
        induction limits with
        | nil => rfl
        | cons l' limits ihs =>
          rw [pollEach, List.foldlM_cons, hsame]
          exact ihs
      exact ⟨s, consumed, live, hstay _, h, .inr hstopped⟩
    | false =>
      by_cases hlive : live = []
      · subst hlive
        obtain ⟨t, xs, live', hstep, hnil, h'⟩ := h.polled (hobserves.sound hstart stopped limitOf) l
        obtain ⟨_, rfl⟩ := List.append_eq_nil_iff.mp hnil.symm
        rw [hcons t hstep]
        exact ih h' hcommitted (Nat.zero_le _) hrest
      · obtain ⟨t, xs, live', hstep, hxs, rfl, h'⟩ := hobserves.poll_passes stopped limitOf hlimitOf h hstopped hcommitted hlive hl
        rw [hcons t hstep]
        refine ih h' hcommitted.right ?_ hrest
        have hlength := List.length_pos_iff.mpr hxs
        rw [List.length_append, List.length_cons] at hcount
        omega

end Observes

end AeronGo.Stream
