import AeronGo.Laws.Stream.ToEnd

/-!
# Delivery through a fragment assembler

`Image.Poll` with a `FragmentAssembler`, whose delegate keeps what it is given. What the builder holds
and what was delivered is what the consumed slots assemble to (`Assembled`), so what was delivered is a
prefix of the messages and all of them when the reader is at the end.
-/

namespace AeronGo.Stream

open Machine Util Atomic LogBuffer

/-- Polls through a fragment assembler. -/
def assembling (p : StreamParams) : Consumer (Builders × List (List UInt8)) :=
  fun termBuffers image fragmentLimit st =>
    image.poll p.toLogParams termBuffers (FragmentAssembler.onFragment record) fragmentLimit st

/-- The assembler's state is what the consumed slots assemble to. -/
def Assembled (p : StreamParams) (consumed _live : List Slot) (st : Builders × List (List UInt8)) : Prop :=
  ((st.1 p.sessionID).getD [], st.2) = assembleAll ([], []) consumed

/-- A slot that is not pending is assembled. -/
theorem deliver_assembles {sessionId : Int} {buf : Buffer} (termBegin : Int) {limit : Nat} (hlimit : limit ≤ 1073741824)
    {s : Slot} {slots : List Slot} {offset : Int} {builders : Builders} {delivered : List (List UInt8)}
    (hrow : Row sessionId buf offset (s :: slots))
    (hlight : Light limit ((builders sessionId).getD [], delivered) (s :: slots)) :
    ∃ builders' delivered', deliver (FragmentAssembler.onFragment record) buf termBegin (builders, delivered)
        (termBegin + offset, s) = .ok (builders', delivered') ∧
      ((builders' sessionId).getD [], delivered') = assemble ((builders sessionId).getD [], delivered) s := by
  cases s with
  | padding n | pending n => exact ⟨builders, delivered, rfl, by simp [assemble, nextBuilder, completes]⟩
  | data flags payload =>
    have hsize : ((builders sessionId).getD []).length + payload.length ≤ limit := hlight [] _ slots rfl
    have hoffset : termBegin + offset - termBegin = offset := add_sub_cancel_left _ _
    simp only [deliver, hoffset]
    exact FragmentAssembler.onFragment_at hrow.small hrow.offset_nonneg hrow.data_inside hrow.at_head builders delivered
      (by omega)

/-- The assembler observes the slots. -/
theorem Assembled.observes (p : StreamParams) : Observes p (FragmentAssembler.onFragment record) (Assembled p) where
  stable := fun h => h
  deliver := by
    rintro buf offset s slots consumed live ⟨builders, delivered⟩ termBegin hrow _ hlight hst
    have hassembled : ((builders p.sessionID).getD [], delivered) = assembleAll ([], []) consumed := hst
    have hmax : p.termLength.toNat ≤ 1073741824 := Int.toNat_le.mpr p.termLength_le
    have hlight' := hlight.right
    rw [← hassembled] at hlight'
    obtain ⟨builders', delivered', hdeliver, hassemble⟩ := deliver_assembles termBegin hmax hrow hlight'
    refine ⟨(builders', delivered'), hdeliver, ?_⟩
    rw [Assembled, assembleAll_append, ← hassembled]
    exact hassemble

theorem Assembled.start (p : StreamParams) : Assembled p [] [] (fun _ => none, []) := rfl

/-- An assembler that polls never stops. -/
theorem assembling_eq (p : StreamParams) :
    assembling p = polling p (FragmentAssembler.onFragment record) (fun _ => false) id := rfl

theorem Assembled.sound (p : StreamParams) : (assembling p).Sound p (fun _ => none, []) (Assembled p) := by
  rw [assembling_eq]
  exact (Assembled.observes p).sound (Assembled.start p) (fun _ => false) id

/-! ## Reading to the end -/

/-- Poll with one limit after the other. -/
def polls (p : StreamParams) (limits : List Int) (s : State (Builders × List (List UInt8))) :
    Except Stop (State (Builders × List (List UInt8))) :=
  limits.foldlM (fun s fragmentLimit => step p (assembling p) s (.poll fragmentLimit)) s

namespace Inv

variable {p : StreamParams} {s : State (Builders × List (List UInt8))} {n off : Int} {entries : List Entry}
  {consumed live : List Slot} (h : Inv p (Assembled p) s n off entries consumed live)

include h

/-- What was delivered is a prefix of the messages. -/
theorem delivered_prefix : s.consumer.2 <+: s.messages := by
  have hassembled : s.consumer.2 = (assembleAll ([], []) consumed).2 := congrArg Prod.snd h.consumer
  rw [hassembled, h.messages_eq]
  exact assemble_entries p.maxPayloadLength_pos entries [] consumed live h.split

/-- At the end everything was delivered. -/
theorem delivered_all (hend : live = []) : s.consumer.2 = s.messages := by
  have hassembled : s.consumer.2 = (assembleAll ([], []) consumed).2 := congrArg Prod.snd h.consumer
  have hall := assemble_all p.maxPayloadLength_pos entries []
  rw [h.split, hend, List.append_nil] at hall
  rw [hassembled, hall, h.messages_eq]
  rfl

end Inv

/-- **What is delivered is what was published.** In every reachable state the delivered messages are a
prefix of those that were offered or committed, which are in the order of their positions; the reader
has not passed an open claim, and no call of either side can fail, where two frames fit a term. Once no
claim is open, all messages are delivered where the reader is at the end, and polling gets there. -/
theorem delivers_published (p : StreamParams) {s : State (Builders × List (List UInt8))}
    (hs : (system p (assembling p) (fun _ => none, [])).Reachable s) :
    s.consumer.2 <+: s.messages ∧
    s.records.Pairwise (fun r r' => r.position < r'.position) ∧
    (∀ r ∈ s.records, ∀ length, r.outcome = .pending length → s.position + (length + 63) / 32 * 32 ≤ r.position) ∧
    (2 * p.mtu ≤ p.termLength → ∀ a : Action, a.Admissible p s → ∃ t, step p (assembling p) s a = .ok t) ∧
    ((∀ r ∈ s.records, r.isPending = false) →
      (s.position = s.log.claimedPosition p → s.consumer.2 = s.messages) ∧
      ∃ count, ∀ limits : List Int, count ≤ limits.length → (∀ l ∈ limits, 0 < l) →
        ∃ t, polls p limits s = .ok t ∧ t.position = t.log.claimedPosition p ∧ t.messages = s.messages ∧
          t.consumer.2 = s.messages) := by
  obtain ⟨n, off, entries, consumed, live, h⟩ := reachable_inv (Assembled.sound p) hs
  refine ⟨h.delivered_prefix, h.records_increasing, fun r hr length => h.pending_above hr, ?_, ?_⟩
  · intro hmtu a ha
    rcases step_cases (Assembled.sound p) ⟨n, off, entries, consumed, live, h⟩ ha with ⟨t, ht, _⟩ | ⟨_, hhalf⟩
    · exact ⟨t, ht⟩
    · omega
  · intro hdecided
    rw [h.records] at hdecided
    have hcommitted : Committed live := by
      have hall : Committed (slotsOf p.maxPayloadLength entries) := committed_of_records hdecided
      rw [h.split] at hall
      exact hall.right
    refine ⟨fun hend => h.delivered_all (h.at_end_iff.mp hend), live.length, ?_⟩
    intro limits hcount hlimits
    obtain ⟨t, consumed', live', hpolls, h', hend⟩ := (Assembled.observes p).polls_to_end
      (fun _ => false) id (fun _ hl => hl) h (Assembled.start p) hcommitted hcount hlimits
    obtain rfl : live' = [] := hend.resolve_right Bool.false_ne_true
    refine ⟨t, hpolls, h'.at_end_iff.mpr rfl, ?_, ?_⟩
    · rw [h'.messages_eq, h.messages_eq]
    · rw [h'.delivered_all rfl, h'.messages_eq, h.messages_eq]

/-- A message in two fragments and a claim that is polled before and after its commit. -/
def shortRun : List Action :=
  [.driver 32768 true, .offer (makeBuffer (List.replicate 40 5)) 0 40 none, .tryClaim 3, .poll 10,
    .fill 0 32 [1, 2, 3], .commit 0, .poll 1]

theorem delivers_published_shortRun :
    ∃ s, (system .smallest (assembling .smallest) (fun _ => none, [])).Reachable s ∧
      s.consumer.2 = [List.replicate 40 5, [1, 2, 3]] ∧ s.consumer.2 <+: s.messages := by
  obtain ⟨s, hs, hq⟩ := exists_reachable_of_calm .smallest (assembling .smallest) (fun _ => none, []) shortRun
    (fun s => s.consumer.2 = [List.replicate 40 5, [1, 2, 3]]) (by decide +kernel)
  exact ⟨s, hs, of_decide_eq_true hq, (delivers_published .smallest hs).1⟩

/-! ## Flow control -/

/-- Positions in the term of the producer's position are before the end of what is zero. -/
theorem lt_zeroEnd {p : StreamParams} {n off x : Int}
    (hterm : x / p.termLength = producerPosition p n off / p.termLength) : x < zeroEnd p n off := by
  have hpos := p.termLength_pos
  refine Int.lt_of_lt_of_le (Int.lt_ediv_add_one_mul_self x hpos) ?_
  rw [hterm, producerPosition, Int.add_comm (n * p.termLength), Int.add_mul_ediv_right _ _ (Int.ne_of_gt hpos), zeroEnd]
  refine le_of_le_of_eq (Int.mul_le_mul_of_nonneg_right ?_ (Int.le_of_lt hpos)) (ite_mul _ _ _ _)
  split
  next hroom =>
    rw [Int.min_eq_left (Int.le_of_lt hroom)]
    have hnone : off / p.termLength < 1 := Int.ediv_lt_of_lt_mul hpos (by rwa [Int.one_mul])
    omega
  next hfull =>
    rw [Int.min_eq_right (Int.not_lt.mp hfull), Int.ediv_self (Int.ne_of_gt hpos)]
    omega

/-- Where two frames fit a term, the publisher is never a term ahead of the reader; whatever the MTU, its term
is zero from its position on, so the reader finds no frame that was not published. -/
theorem publisher_in_window (p : StreamParams) {s : State (Builders × List (List UInt8))}
    (hs : (system p (assembling p) (fun _ => none, [])).Reachable s) :
    s.position ≤ s.log.claimedPosition p ∧
    (2 * p.mtu ≤ p.termLength → s.log.claimedPosition p < s.position + p.termLength) ∧
    ∀ x, s.log.claimedPosition p ≤ x → x / p.termLength = s.log.claimedPosition p / p.termLength →
      s.log.bytes p x = 0 := by
  obtain ⟨n, off, entries, consumed, live, h⟩ := reachable_inv (Assembled.sound p) hs
  rw [h.position_eq, h.claimedPosition_eq]
  refine ⟨h.laid.le, fun hmtu => ?_, fun x hx hterm => h.zero x hx (lt_zeroEnd hterm)⟩
  have hge := p.termLength_ge
  have hwindow := h.window
  unfold maxRequired at hwindow
  omega

theorem publisher_in_window_shortRun :
    ∃ s, (system .smallest (assembling .smallest) (fun _ => none, [])).Reachable s ∧ s.position = 192 ∧
      s.log.claimedPosition .smallest < 192 + StreamParams.smallest.termLength := by
  obtain ⟨s, hs, hq⟩ := exists_reachable_of_calm .smallest (assembling .smallest) (fun _ => none, []) shortRun
    (fun s => s.position = 192) (by decide +kernel)
  have hposition : s.position = 192 := of_decide_eq_true hq
  exact ⟨s, hs, hposition, hposition ▸ (publisher_in_window .smallest hs).2.1 (by decide)⟩

end AeronGo.Stream
