import AeronGo.Laws.Image.ControlledPoll
import AeronGo.Laws.Stream.Steps
import Mathlib.Data.List.Chain

/-!
# Delivery through a controlled fragment assembler

`Image.ControlledPoll` with a `ControlledFragmentAssembler`, whose delegate answers as it likes: its
answer is any function of the calls it had so far and of the message. Each call is kept with its answer,
the subscriber position at that time and the end of the fragment whose header came with it. The builder
and the messages not aborted are what the consumed slots assemble to, and after an abort the next slot
still completes the same message (`Tracked`).
-/

namespace AeronGo.Stream

open Machine Util Atomic LogBuffer
open Image (ControlledPollAction Walked walk walk_cons walk_cons_of_stuck answered_on handle)

/-- A call of the delegate. -/
structure Call where
  message : List UInt8
  action : ControlledPollAction
  seen : Int
  stop : Int
deriving DecidableEq, Repr

/-- How a delegate answers. -/
abbrev Choice := List Call → List UInt8 → ControlledPollAction

/-- The delegate that answers by choice and keeps its calls. -/
def tracing (p : StreamParams) (choose : Choice) : ControlledFragmentAssembler.Delegate (List Call) :=
  fun calls seen buffer offset length header => do
    let message ← buffer.writeBytes offset length
    let frameLength ← getFrameLength header.buffer header.offset
    let stop := seen - seen % p.termLength + header.offset + alignInt32 frameLength frameAlignment
    let action := choose calls message
    return (action, calls ++ [⟨message, action, seen, stop⟩])

/-- Controlled polls through a fragment assembler. -/
def controlling (p : StreamParams) (choose : Choice) : Consumer (Builders × List Call) :=
  fun termBuffers image fragmentLimit st =>
    image.controlledPoll p.toLogParams termBuffers (ControlledFragmentAssembler.onFragment (tracing p choose))
      fragmentLimit st

/-- The messages that were not answered with an abort. -/
def accepted (calls : List Call) : List (List UInt8) := (calls.filter (·.action ≠ .abort)).map Call.message

variable {c : Call} {st : Builders × List Call}

theorem accepted_abort (calls : List Call) (h : c.action = .abort) :
    accepted (calls ++ [c]) = accepted calls := by
  simp [accepted, List.filter_append, h]

theorem accepted_other (calls : List Call) (h : c.action ≠ .abort) :
    accepted (calls ++ [c]) = accepted calls ++ [c.message] := by
  simp [accepted, List.filter_append, h]

/-! ## The assembler on a slot -/

/-- The answer at a slot, the builder after it and the calls. -/
def present (choose : Choice) (seen stop : Int) (builder : List UInt8) (calls : List Call) (s : Slot) :
    ControlledPollAction × List UInt8 × List Call :=
  match completes builder s with
  | none => (.continue, nextBuilder builder s, calls)
  | some message =>
    (choose calls message, if choose calls message = .abort then builder else nextBuilder builder s,
      calls ++ [⟨message, choose calls message, seen, stop⟩])

section Slot

variable {p : StreamParams} (choose : Choice) {buf : Buffer} {sessionId offset : Int} {s : Slot} {slots : List Slot}
  (hrow : Row sessionId buf offset (s :: slots))

include hrow

/-- What the delegate keeps of a call. -/
theorem tracing_at {message : List UInt8} {b : Buffer} {o l seen : Int} (hbytes : b.writeBytes o l = .ok message)
    (hcommitted : s.isPending = false) (calls : List Call) :
    tracing p choose calls seen b o l ⟨buf, offset⟩ =
      .ok (choose calls message, calls ++ [⟨message, choose calls message, seen,
        seen - seen % p.termLength + offset + s.space⟩]) := by
  have hlength := getFrameLength_at hrow.small hrow.offset_nonneg hrow.head_inside hrow.at_head
  rw [hcommitted] at hlength
  simp only [tracing, hbytes, ok_bind, hlength, Bool.false_eq_true, if_false,
    alignInt32_frameLength hrow.small hrow.offset_nonneg hrow.head_inside hrow.at_head]
  rfl

/-- **`OnFragment` presents** the message that a slot completes. -/
theorem handle_presents (termBegin seen : Int) (builders : Builders) (calls : List Call)
    (hbuilder : ((held builders sessionId).length : Int) + payloadLength s ≤ 1073741824)
    {r : ControlledPollAction × List UInt8 × List Call}
    (hr : present choose seen (seen - seen % p.termLength + offset + s.space) (held builders sessionId) calls s = r) :
    ∃ builders', handle (ControlledFragmentAssembler.onFragment (tracing p choose)) buf termBegin (builders, calls) seen
        (termBegin + offset, s) = .ok (r.1, builders', r.2.2) ∧ held builders' sessionId = r.2.1 := by
  subst hr
  cases s with
  | padding n | pending n => exact ⟨builders, rfl, rfl⟩
  | data flags payload =>
    have hin := hrow.data_inside
    obtain ⟨next, hheld, heq⟩ := ControlledFragmentAssembler.onFragment_eq hrow.small hrow.offset_nonneg hin hrow.at_head
      (tracing p choose) builders seen calls
    have hnext : ∀ action, held (next action) sessionId = if action = .abort then held builders sessionId
        else nextBuilder (held builders sessionId) (.data flags payload) := by
      intro action
      rw [hheld, Function.update_self]
    simp only [handle, show termBegin + offset - termBegin = offset from add_sub_cancel_left _ _, heq]
    rcases handedOn_cases hrow.small hrow.offset_nonneg hin hrow.at_head (held builders sessionId)
        (Int.lt_of_le_of_lt hbuilder (by decide)) with ⟨hnone, hc⟩ | ⟨b, o, l, message, hsome, hc, hread⟩
    · refine ⟨next .continue, ?_, ?_⟩
      · simp only [hnone, present, hc]
      · simp only [present, hc]
        exact hnext .continue
    · refine ⟨next (choose calls message), ?_, ?_⟩
      · simp only [hsome, present, hc, tracing_at choose hrow hread rfl, ok_bind]
      · simp only [present, hc]
        exact hnext _

end Slot

/-! ## What the calls come to -/

/-- After an abort the same message is presented, for the same fragment. -/
def Repeats (c c' : Call) : Prop := c.action = .abort → c'.message = c.message ∧ c'.stop = c.stop

/-- The builder and the accepted messages are what the consumed slots assemble to. After an abort the
next slot is the one that was aborted. -/
structure Tracked (p : StreamParams) (consumed live : List Slot) (st : Builders × List Call) : Prop where
  builder : (st.1 p.sessionID).getD [] = (assembleAll ([], []) consumed).1
  accepted : accepted st.2 = (assembleAll ([], []) consumed).2
  repeats : st.2.IsChain Repeats
  aborted : ∀ c, st.2.getLast? = some c → c.action = .abort → ∃ s rest, live = s :: rest ∧ s.isPending = false ∧
    completes (assembleAll ([], []) consumed).1 s = some c.message ∧ c.stop = totalSpace consumed + s.space

namespace Tracked

variable {p : StreamParams} {consumed rest : List Slot} {s : Slot} {builders builders' : Builders} {calls : List Call}
  (h : Tracked p consumed (s :: rest) (builders, calls))

include h

/-- A slot that completes nothing. -/
theorem pass (hnone : completes (assembleAll ([], []) consumed).1 s = none)
    (hbuilder : (builders' p.sessionID).getD [] = nextBuilder (assembleAll ([], []) consumed).1 s) :
    Tracked p (consumed ++ [s]) rest (builders', calls) where
  builder := by
    rw [assembleAll_append]
    exact hbuilder
  accepted := by
    rw [assembleAll_append, h.accepted, assembleAll_cons, assembleAll_nil, assemble, hnone]
    exact (List.append_nil _).symm
  repeats := h.repeats
  aborted := by
    intro c hc habort
    obtain ⟨s', rest', hlive, _, hmessage, _⟩ := h.aborted c hc habort
    obtain ⟨rfl, _⟩ := List.cons.inj hlive
    rw [hnone] at hmessage
    cases hmessage

variable {message : List UInt8} (hsome : completes (assembleAll ([], []) consumed).1 s = some message)
  {action : ControlledPollAction} {seen : Int}

include hsome

/-- A call follows the one before it. -/
theorem repeats_call :
    List.IsChain Repeats (calls ++ [⟨message, action, seen, totalSpace consumed + s.space⟩]) := by
  refine h.repeats.append (List.isChain_singleton _) ?_
  intro c hc c' hc' habort
  obtain rfl := Option.some.inj hc'
  obtain ⟨s', rest', hlive, _, hmessage, hstop⟩ := h.aborted c hc habort
  obtain ⟨rfl, _⟩ := List.cons.inj hlive
  exact ⟨Option.some.inj (hsome.symm.trans hmessage), hstop.symm⟩

/-- A message that is aborted stays the next one. -/
theorem abort (hpending : s.isPending = false) (haction : action = .abort)
    (hbuilder : (builders' p.sessionID).getD [] = (assembleAll ([], []) consumed).1) :
    Tracked p consumed (s :: rest) (builders', calls ++ [⟨message, action, seen, totalSpace consumed + s.space⟩]) where
  builder := hbuilder
  accepted := by
    rw [accepted_abort calls haction]
    exact h.accepted
  repeats := h.repeats_call hsome
  aborted := by
    intro c hc _
    rw [List.getLast?_concat] at hc
    obtain rfl := Option.some.inj hc
    exact ⟨s, rest, rfl, hpending, hsome, rfl⟩

/-- A message that is not aborted is accepted. -/
theorem accept (haction : action ≠ .abort)
    (hbuilder : (builders' p.sessionID).getD [] = nextBuilder (assembleAll ([], []) consumed).1 s) :
    Tracked p (consumed ++ [s]) rest (builders', calls ++ [⟨message, action, seen, totalSpace consumed + s.space⟩]) where
  builder := by
    rw [assembleAll_append]
    exact hbuilder
  accepted := by
    rw [accepted_other calls haction, h.accepted, assembleAll_append, assembleAll_cons, assembleAll_nil, assemble, hsome]
    rfl
  repeats := h.repeats_call hsome
  aborted := by
    intro c hc habort
    rw [List.getLast?_concat] at hc
    obtain rfl := Option.some.inj hc
    exact absurd habort haction

end Tracked

/-! ## The calls of one poll -/

/-- Each call of a poll sees the position that was committed last, and an abort or a break ends it. -/
def Follows : Int → List Call → Prop
  | _, [] => True
  | seen, c :: calls => c.seen = seen ∧ (c.action = .abort ∨ c.action = .break → calls = []) ∧
      Follows (if c.action = .commit then c.stop else seen) calls

/-- What a walk of the tracing delegate has done: the slots it passed, and the calls it made. -/
structure Tracks (p : StreamParams) (consumed row rest : List Slot) (position seen : Int) (calls : List Call)
    (w : Walked (Builders × List Call)) (made : List Call) : Prop where
  tracked : ∃ left, row = w.slots ++ left ∧ Tracked p (consumed ++ w.slots) (left ++ rest) w.state
  committed : Committed w.slots
  calls : w.state.2 = calls ++ made
  follows : Follows seen made
  stops : ∀ c ∈ made, ∃ xs ys, row = xs ++ ys ∧ c.stop = position + totalSpace xs ∧ (c.action ≠ .abort → xs <+: w.slots)

namespace Tracks

variable {p : StreamParams} {consumed row rest : List Slot} {position seen : Int} {calls : List Call}

/-- A walk that ends where it is. -/
theorem stay (h : Tracked p consumed (row ++ rest) st) :
    Tracks p consumed row rest position seen st.2 ⟨[], seen, st⟩ [] where
  tracked := ⟨row, rfl, by rwa [List.append_nil]⟩
  committed := fun _ hs => (List.not_mem_nil hs).elim
  calls := (List.append_nil _).symm
  follows := trivial
  stops := fun _ hc => (List.not_mem_nil hc).elim

variable {s : Slot} {w : Walked (Builders × List Call)} {made : List Call}

/-- A slot before a walk that completed nothing. -/
theorem pass (hs : s.isPending = false)
    (h : Tracks p (consumed ++ [s]) row rest (position + s.space) seen calls w made) :
    Tracks p consumed (s :: row) rest position seen calls { w with slots := s :: w.slots } made where
  tracked := by
    obtain ⟨left, hrow, htracked⟩ := h.tracked
    refine ⟨left, by rw [hrow]; rfl, ?_⟩
    rw [List.append_assoc] at htracked
    exact htracked
  committed := by
    intro t ht
    rcases List.mem_cons.mp ht with rfl | ht
    · exact hs
    · exact h.committed t ht
  calls := h.calls
  follows := h.follows
  stops := by
    intro c hc
    obtain ⟨xs, ys, hrow, hstop, hpassed⟩ := h.stops c hc
    refine ⟨s :: xs, ys, by rw [hrow]; rfl, ?_, fun haction => ?_⟩
    · rw [hstop, totalSpace_cons, Int.add_assoc]
    · exact List.cons_prefix_cons.mpr ⟨rfl, hpassed haction⟩

/-- A call that was answered with a commit or to continue, before the walk goes on. -/
theorem call {seen' : Int} (hs : s.isPending = false) (hseen : c.seen = seen) (hstop : c.stop = position + s.space)
    (haction : c.action ≠ .abort ∧ c.action ≠ .break) (hseen' : seen' = if c.action = .commit then c.stop else seen)
    (h : Tracks p (consumed ++ [s]) row rest (position + s.space) seen' (calls ++ [c]) w made) :
    Tracks p consumed (s :: row) rest position seen calls { w with slots := s :: w.slots } (c :: made) where
  tracked := (h.pass hs).tracked
  committed := (h.pass hs).committed
  calls := by
    rw [h.calls, List.append_assoc]
    rfl
  follows := by
    refine ⟨hseen, fun hends => ?_, ?_⟩
    · rcases hends with hends | hends
      · exact absurd hends haction.1
      · exact absurd hends haction.2
    · rw [← hseen']
      exact h.follows
  stops := by
    intro d hd
    rcases List.mem_cons.mp hd with rfl | hd
    · refine ⟨[s], row, rfl, ?_, fun _ => ?_⟩
      · rw [hstop, totalSpace_cons, totalSpace_nil, Int.add_zero]
      · exact List.cons_prefix_cons.mpr ⟨rfl, List.nil_prefix⟩
    · exact (h.pass hs).stops d hd

/-- A call that ends the walk. -/
theorem last {xs : List Slot} (hxs : xs = [] ∧ c.action = .abort ∨ xs = [s])
    (hs : s.isPending = false) (hseen : c.seen = seen) (hstop : c.stop = position + s.space)
    (hcalls : st.2 = calls ++ [c])
    (h : ∃ left, s :: row = xs ++ left ∧ Tracked p (consumed ++ xs) (left ++ rest) st) :
    Tracks p consumed (s :: row) rest position seen calls ⟨xs, seen, st⟩ [c] where
  tracked := h
  committed := by
    intro t ht
    rcases hxs with ⟨rfl, _⟩ | rfl
    · cases ht
    · rw [List.mem_singleton.mp ht]
      exact hs
  calls := hcalls
  follows := ⟨hseen, fun _ => rfl, trivial⟩
  stops := by
    intro d hd
    rw [List.mem_singleton.mp hd]
    refine ⟨[s], row, rfl, ?_, fun haction => ?_⟩
    · rw [hstop, totalSpace_cons, totalSpace_nil, Int.add_zero]
    · rcases hxs with ⟨_, habort⟩ | rfl
      · exact absurd habort haction
      · exact List.prefix_rfl

end Tracks

section Walk

variable {p : StreamParams} (choose : Choice) {buf : Buffer} {termBegin : Int} (hbegin : termBegin % p.termLength = 0)
  (hlength : buf.length = p.termLength) {limit : Nat} (hlimit : limit ≤ 1073741824)

include hbegin hlength hlimit

/-- **The walk keeps track**, whatever the delegate answers. -/
theorem walk_tracks :
    ∀ (row : List Slot) (fragmentLimit seen offset : Int) (builders : Builders) (calls : List Call)
      (consumed rest : List Slot), Row p.sessionID buf offset row → Light limit ([], []) (consumed ++ row) →
      Tracked p consumed (row ++ rest) (builders, calls) → totalSpace consumed = termBegin + offset →
      termBegin ≤ seen → seen ≤ termBegin + offset →
      ∃ w made, walk (ControlledFragmentAssembler.onFragment (tracing p choose)) buf termBegin (termBegin + p.termLength)
          fragmentLimit seen (termBegin + offset) (builders, calls) row = .ok w ∧
        Tracks p consumed row rest (termBegin + offset) seen calls w made := by
  have hpos := p.termLength_pos
  intro row
  induction row with
  | nil =>
    intro fragmentLimit seen offset builders calls consumed rest _ _ htracked _ _ _
    exact ⟨_, [], rfl, Tracks.stay htracked⟩
  | cons s row ih =>
    intro fragmentLimit seen offset builders calls consumed rest hrow hlight htracked hend hseen hseen'
    have hspace := Slot.space_bounds hrow.at_head.frameLength_ge
    have hin := hrow.head_inside
    by_cases hgo : 0 < fragmentLimit ∧ readable (termBegin + p.termLength) (termBegin + offset, s) = true
    · have hs : s.isPending = false := by
        have hread := hgo.2
        simp only [readable, Bool.and_eq_true, Bool.not_eq_true'] at hread
        exact hread.2
      have hsame : held builders p.sessionID = (assembleAll ([], []) consumed).1 := htracked.builder
      have hsize := hlight consumed s row rfl
      have hterm : seen - seen % p.termLength + offset + s.space = totalSpace consumed + s.space := by
        have hmod : seen % p.termLength = seen - termBegin := by
          obtain ⟨q, hq⟩ := Int.dvd_of_emod_eq_zero hbegin
          have hsplit : seen = seen - termBegin + p.termLength * q := by omega
          rw [hsplit, Int.add_mul_emod_self_left, Int.emod_eq_of_lt (by omega) (by omega)]
          omega
        omega
      -- the rest of the walk, behind the slot
      have hnext : ∀ seen' builders' calls', Tracked p (consumed ++ [s]) (row ++ rest) (builders', calls') →
          termBegin ≤ seen' → seen' ≤ termBegin + offset + s.space →
          ∃ w made, walk (ControlledFragmentAssembler.onFragment (tracing p choose)) buf termBegin
              (termBegin + p.termLength) (if s.isData then fragmentLimit - 1 else fragmentLimit) seen'
              (termBegin + offset + s.space) (builders', calls') row = .ok w ∧
            Tracks p (consumed ++ [s]) row rest (termBegin + offset + s.space) seen' calls' w made := by
        intro seen' builders' calls' htracked' h h'
        rw [Int.add_assoc] at h' ⊢
        refine ih _ seen' (offset + s.space) builders' calls' (consumed ++ [s]) rest hrow.tail ?_ htracked' ?_ h h'
        · rw [List.append_assoc]
          exact hlight
        · rw [totalSpace_append, hend, totalSpace_cons, totalSpace_nil, Int.add_zero, Int.add_assoc]
      obtain ⟨builders', hhandle, hbuilder'⟩ := handle_presents choose hrow termBegin seen builders calls
        (by rw [hsame]; omega) rfl
      rw [hterm, hsame] at hhandle hbuilder'
      rw [walk_cons hgo.1 hgo.2, hhandle, ok_bind]
      cases hc : completes (assembleAll ([], []) consumed).1 s with
      | none =>
        simp only [present, hc] at hbuilder' ⊢
        obtain ⟨w, made, hwalk, htracks⟩ := hnext seen builders' calls (htracked.pass hc hbuilder') hseen (by omega)
        refine ⟨{ w with slots := s :: w.slots }, made, ?_, htracks.pass hs⟩
        rw [answered_on ⟨by decide, by decide⟩, if_neg (show ¬ControlledPollAction.continue = .commit by decide), hwalk]
        rfl
      | some message =>
        simp only [present, hc] at hbuilder' ⊢
        generalize choose calls message = action at hbuilder' ⊢
        by_cases habort : action = .abort
        · subst habort
          rw [if_pos rfl] at hbuilder'
          refine ⟨⟨[], seen, builders', _⟩, [_], rfl, Tracks.last (.inl ⟨rfl, rfl⟩) hs rfl (by rw [hend]) rfl ?_⟩
          refine ⟨s :: row, rfl, ?_⟩
          rw [List.append_nil]
          exact htracked.abort hc hs rfl hbuilder'
        rw [if_neg habort] at hbuilder'
        by_cases hbreak : action = .break
        · subst hbreak
          exact ⟨⟨[s], seen, builders', _⟩, [_], rfl, Tracks.last (.inr rfl) hs rfl (by rw [hend]) rfl
            ⟨row, rfl, htracked.accept hc habort hbuilder'⟩⟩
        obtain ⟨seen', hnew⟩ : ∃ seen', seen' = if action = .commit then termBegin + offset + s.space else seen := ⟨_, rfl⟩
        have hbounds : termBegin ≤ seen' ∧ seen' ≤ termBegin + offset + s.space := by
          rw [hnew]
          split <;> omega
        obtain ⟨w, made, hwalk, htracks⟩ := hnext seen' builders' _ (htracked.accept hc habort hbuilder') hbounds.1
          hbounds.2
        refine ⟨{ w with slots := s :: w.slots }, ⟨message, action, seen, totalSpace consumed + s.space⟩ :: made, ?_,
          Tracks.call hs rfl (by rw [hend]) ⟨habort, hbreak⟩ (by rw [hnew, hend]) htracks⟩
        rw [answered_on ⟨habort, hbreak⟩, ← hnew, hwalk]
        rfl
    · rw [walk_cons_of_stuck hgo]
      exact ⟨_, [], rfl, Tracks.stay htracked⟩

end Walk

/-- A poll walks from the subscriber position and keeps track. -/
theorem Tracked.poll {p : StreamParams} (choose : Choice) {termBuffers : Int → Buffer}
    {consumed row rest : List Slot} (fragmentLimit : Int)
    (hholds : Image.Holds p.toLogParams termBuffers p.sessionID (totalSpace consumed) row)
    (hlight : Light p.termLength.toNat ([], []) (consumed ++ row)) (hst : Tracked p consumed (row ++ rest) st) :
    ∃ w made, controlling p choose termBuffers ⟨false, totalSpace consumed⟩ fragmentLimit st =
        .ok (fragmentCount w.slots, ⟨false, totalSpace (consumed ++ w.slots)⟩, w.state) ∧
      Tracks p consumed row rest (totalSpace consumed) (totalSpace consumed) st.2 w made := by
  obtain ⟨builders, calls⟩ := st
  have hpos := p.termLength_pos
  have hmod := Int.emod_nonneg (totalSpace consumed) (show p.termLength ≠ 0 by omega)
  have hplace : Image.termBegin p.toLogParams (totalSpace consumed) + totalSpace consumed % p.termLength =
      totalSpace consumed := Int.sub_add_cancel _ _
  have hbegin : Image.termBegin p.toLogParams (totalSpace consumed) % p.termLength = 0 :=
    Int.emod_eq_zero_of_dvd Int.dvd_self_sub_emod
  have hmax : p.termLength.toNat ≤ 1073741824 := Int.toNat_le.mpr p.termLength_le
  obtain ⟨w, made, hwalk, htracks⟩ := walk_tracks choose hbegin hholds.length_eq hmax row fragmentLimit
    (totalSpace consumed) _ builders calls consumed rest hholds.row hlight hst hplace.symm (by omega) (by omega)
  rw [hplace] at hwalk htracks
  refine ⟨w, made, ?_, htracks⟩
  rw [controlling, Image.controlledPoll_eq hholds, Image.termEnd, hwalk, ok_bind, totalSpace_append]

theorem Tracked.sound (p : StreamParams) (choose : Choice) :
    (controlling p choose).Sound p (fun _ => none, []) (Tracked p) where
  start := ⟨rfl, rfl, List.isChain_nil, fun c hc => by cases hc⟩
  stable := by
    intro consumed live live' st h hkeep
    refine ⟨h.builder, h.accepted, h.repeats, ?_⟩
    intro c hc habort
    obtain ⟨s, rest, hlive, hpending, hmessage, hstop⟩ := h.aborted c hc habort
    obtain ⟨rest', hlive'⟩ := hkeep s rest hlive hpending
    exact ⟨s, rest', hlive', hpending, hmessage, hstop⟩
  poll := by
    intro termBuffers consumed row rest st fragmentLimit hholds _ hlight hst
    obtain ⟨w, made, hpoll, htracks⟩ := Tracked.poll choose fragmentLimit hholds hlight hst
    obtain ⟨left, hrow, htracked⟩ := htracks.tracked
    exact ⟨_, w.slots, left, w.state, hrow, htracks.committed, hpoll, htracked⟩

/-! ## Exactly once up to aborts -/

/-- What a controlled poll does with the frames from the subscriber position on: it passes the first
of them, moves the position to their end and returns how many are fragments. Its calls see the position
committed last; the fragment of a call that was not aborted is passed, and one that was aborted is next. -/
structure PolledOnce (p : StreamParams) (choose : Choice) (s : State (Builders × List Call)) (fragmentLimit : Int)
    (passed left : List Slot) (calls : List Call) (st : Builders × List Call) : Prop where
  result : controlling p choose (s.log.termBuffer p) s.image fragmentLimit s.consumer =
    .ok (fragmentCount passed, ⟨false, s.position + totalSpace passed⟩, st)
  kept : st.2 = s.consumer.2 ++ calls
  follows : Follows s.position calls
  stops : ∀ c ∈ calls, ∃ xs ys, passed ++ left = xs ++ ys ∧ c.stop = s.position + totalSpace xs ∧
    (c.action ≠ .abort → xs <+: passed)
  aborted : ∀ c, calls.getLast? = some c → c.action = .abort →
    ∃ f rest, left = f :: rest ∧ c.stop = s.position + totalSpace passed + f.space

theorem Inv.polledOnce {p : StreamParams} {choose : Choice} {s : State (Builders × List Call)} {n off : Int}
    {entries : List Entry} {consumed live : List Slot} (h : Inv p (Tracked p) s n off entries consumed live)
    (fragmentLimit : Int) :
    ∃ passed left calls st, live = passed ++ left ∧ PolledOnce p choose s fragmentLimit passed left calls st := by
  obtain ⟨row, rest, rfl, _, hholds, _⟩ := h.holds
  have hlight := h.light
  rw [← List.append_assoc] at hlight
  obtain ⟨w, made, hpoll, htracks⟩ := Tracked.poll choose fragmentLimit hholds hlight.left h.consumer
  obtain ⟨left, hrow, htracked⟩ := htracks.tracked
  rw [totalSpace_append, ← h.image, ← h.position_eq] at hpoll
  refine ⟨w.slots, left ++ rest, made, w.state, by rw [hrow, List.append_assoc], hpoll, htracks.calls, ?_, ?_, ?_⟩
  · rw [h.position_eq]
    exact htracks.follows
  · intro c hc
    obtain ⟨xs, ys, hsplit, hstop, hpassed⟩ := htracks.stops c hc
    refine ⟨xs, ys ++ rest, ?_, by rw [h.position_eq, hstop], hpassed⟩
    rw [← List.append_assoc, ← hrow, hsplit, List.append_assoc]
  · intro c hc habort
    have hlast : w.state.2.getLast? = some c := by
      rw [htracks.calls, List.getLast?_append, hc]
      rfl
    obtain ⟨f, rest', hleft, _, _, hstop⟩ := htracked.aborted c hlast habort
    exact ⟨f, rest', hleft, by rw [h.position_eq, hstop, totalSpace_append]⟩

/-- **Controlled polling is exactly once up to aborts.** In every reachable state, whatever the delegate
answers: the messages not aborted are a prefix of those published, an aborted message is presented again
next, the subscriber position is where a frame begins or the log ends, right before a fragment that was
aborted last, and every poll does what `PolledOnce` says. -/
theorem controlled_exactly_once (p : StreamParams) (choose : Choice) {s : State (Builders × List Call)}
    (hs : (system p (controlling p choose) (fun _ => none, [])).Reachable s) :
    accepted s.consumer.2 <+: s.messages ∧ s.consumer.2.IsChain Repeats ∧
    ∃ live, Laid p.sessionID (s.log.bytes p) s.position live (s.log.claimedPosition p) ∧
      (∀ c, s.consumer.2.getLast? = some c → c.action = .abort →
        ∃ f rest, live = f :: rest ∧ c.stop = s.position + f.space) ∧
      ∀ fragmentLimit, ∃ passed left calls st, live = passed ++ left ∧
        PolledOnce p choose s fragmentLimit passed left calls st := by
  obtain ⟨n, off, entries, consumed, live, h⟩ := reachable_inv (Tracked.sound p choose) hs
  refine ⟨?_, h.consumer.repeats, live, ?_, ?_, h.polledOnce⟩
  · rw [h.consumer.accepted, h.messages_eq]
    exact assemble_entries p.maxPayloadLength_pos entries [] consumed live h.split
  · rw [h.position_eq, h.claimedPosition_eq]
    exact h.laid
  · intro c hc habort
    obtain ⟨f, rest, hlive, _, _, hstop⟩ := h.consumer.aborted c hc habort
    exact ⟨f, rest, hlive, by rw [h.position_eq, hstop]⟩

/-- Two messages, the first in two fragments, polled twice. -/
def twoPolls : List Action :=
  [.driver 32768 true, .offer (makeBuffer (List.replicate 40 5)) 0 40 none, .offer (makeBuffer [1, 2]) 0 2 none, .poll 10,
    .poll 10]

/-- Abort the first call and commit the others. -/
def abortFirst : Choice := fun calls _ => if calls = [] then .abort else .commit

theorem controlled_exactly_once_abortFirst :
    ∃ s, (system .smallest (controlling .smallest abortFirst) (fun _ => none, [])).Reachable s ∧
      s.consumer.2 = [⟨List.replicate 40 5, .abort, 0, 128⟩, ⟨List.replicate 40 5, .commit, 64, 128⟩,
        ⟨[1, 2], .commit, 128, 192⟩] ∧ accepted s.consumer.2 <+: s.messages := by
  obtain ⟨s, hs, hq⟩ := exists_reachable_of_calm .smallest (controlling .smallest abortFirst) (fun _ => none, []) twoPolls
    (fun s => s.consumer.2 = [⟨List.replicate 40 5, .abort, 0, 128⟩, ⟨List.replicate 40 5, .commit, 64, 128⟩,
      ⟨[1, 2], .commit, 128, 192⟩]) (by decide +kernel)
  exact ⟨s, hs, of_decide_eq_true hq, (controlled_exactly_once .smallest abortFirst hs).1⟩

end AeronGo.Stream
