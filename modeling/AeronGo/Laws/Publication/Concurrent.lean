import AeronGo.Publication.Concurrent
import AeronGo.Laws.LogBuffer.Frames

/-!
# Concurrent appends never overlap and rotation loses nothing

Every interleaving of any number of publishers, as long as no tail offset reaches `2 ^ 31`.

The invariant (`LogSound`) is about the three tails alone. The get-and-adds that fell in one term form a chain from
offset zero to the tail of its partition (`claims_chain`): a get-and-add extends the chain, and a compare-and-swap of
`RotateLog` takes a partition from its term to the term three later (`RotateLog` swaps only a tail whose term id it
has checked), which nobody has claimed in yet. A publisher's own state matters only in what the swap compares. Each
step is one atomic access; weaker orders of memory are left out.
-/

namespace AeronGo.Publication

open Machine LogBuffer Util

variable {p : LogParams}

/-! ## What a call claims -/

namespace Call

/-- The call has passed every size check. -/
structure Accepted (p : LogParams) (call : Call) : Prop where
  nonneg : 0 ≤ call.length
  payload : call.single p = true → call.length ≤ p.maxPayloadLength
  message : call.single p = false → call.length ≤ p.maxMessageLength

/-- A call that passes all checks is admissible. -/
theorem accepted_of_checks {call : Call} (hover : call.overflows = false)
    (hrefused : call.refused p = false) (hlong : call.tooLong p = false) : call.Accepted p := by
  refine ⟨by simpa [overflows] using hover, ?_, ?_⟩
  · intro hsingle
    cases call with
    | offer length | offer2 lengthOne lengthTwo => simpa [single] using hsingle
    | tryClaim length => simpa [refused, Call.length] using hrefused
  · intro hsingle
    simpa [tooLong, hsingle] using hlong

variable {call : Call}

theorem lt_length_of_single (hs : call.single p = false) : p.maxPayloadLength < call.length := by
  cases call with
  | offer length | offer2 lengthOne lengthTwo => simpa [single] using hs
  | tryClaim length => cases hs

/-- The space claimed for a fragmented message. -/
theorem required_fragmented (h : call.Accepted p) (hs : call.single p = false) :
    call.required p = messageSpace p.maxPayloadLength call.length ∧ call.length ≤ 134217728 := by
  have hge := p.maxPayloadLength_ge
  have hmtu := p.maxPayloadLength_eq
  have hlt := p.mtu_lt
  have hle := p.termLength_le
  have hlen := h.message hs
  have hlo := h.nonneg
  rw [p.maxMessageLength_eq] at hlen
  refine ⟨?_, by omega⟩
  rw [required, hs, if_neg Bool.false_ne_true]
  exact fragmentedLength_eq hge (by omega) hlo (by omega)

theorem required_single (h : call.Accepted p) (hs : call.single p = true) :
    call.required p = (call.length + 63) / 32 * 32 ∧ call.length ≤ 2147483584 := by
  have hmtu := p.maxPayloadLength_eq
  have hlt := p.mtu_lt
  have haligned := p.mtu_aligned
  have hlen := h.payload hs
  refine ⟨?_, by omega⟩
  rw [required, hs, if_pos rfl]
  exact alignedFrameLength_eq h.nonneg (by omega)

/-- What a call claims is positive, aligned and fits 32 bits. -/
theorem required_bounds (h : call.Accepted p) :
    0 < call.required p ∧ call.required p < 2147483648 ∧ call.required p % 32 = 0 := by
  have hlo := h.nonneg
  cases hs : call.single p with
  | true =>
    obtain ⟨hreq, hlen⟩ := required_single h hs
    have hmtu := p.maxPayloadLength_eq
    have hlt := p.mtu_lt
    have haligned := p.mtu_aligned
    have hpay := h.payload hs
    omega
  | false =>
    obtain ⟨hreq, hlen⟩ := required_fragmented h hs
    have hge := p.maxPayloadLength_ge
    have hgt := lt_length_of_single hs
    have hspace := messageSpace_bounds hge hlo
    have haligned := messageSpace_aligned call.length p.maxPayloadLength_aligned
    omega

/-- Every frame of an append is a data frame of the claimed term. -/
theorem of_mem_frames {offset termId : Int} {f : FrameHeader} (hf : f ∈ call.frames p offset termId) :
    f.termId = termId ∧ f.frameType = typeData := by
  unfold frames at hf
  split at hf
  · rw [List.mem_singleton.mp hf]
    exact ⟨rfl, rfl⟩
  · obtain ⟨x, _, rfl⟩ := List.mem_map.mp hf
    exact ⟨rfl, rfl⟩

/-- The frames of a successful append fill its claim. -/
theorem frames_chain (h : call.Accepted p) {offset : Int} (termId : Int) (lo : 0 ≤ offset)
    (hend : offset + call.required p ≤ p.termLength) :
    Chain FrameHeader.offset FrameHeader.stop offset (call.frames p offset termId)
      (offset + call.required p) := by
  have hle := p.termLength_le
  have hlo := h.nonneg
  cases hs : call.single p with
  | true =>
    obtain ⟨hreq, hlen⟩ := required_single h hs
    rw [frames, hs, if_pos rfl]
    have hword : i32 (call.length + headerLength) = call.length + 32 :=
      i32_eq (by unfold headerLength; omega)
    have hstop := FrameHeader.stop_eq ⟨offset, call.length + 32, unfragmented, typeData, termId⟩
      (show 0 ≤ call.length + 32 by omega) (show call.length + 32 ≤ 2147483616 by omega)
    have hspace : (call.length + 32 + 31) / 32 * 32 = call.required p := by omega
    rw [hword]
    rw [hspace] at hstop
    have hpos := (required_bounds h).1
    exact ⟨rfl, by rw [hstop]; exact Int.lt_add_of_pos_right _ hpos, hstop⟩
  | false =>
    obtain ⟨hreq, hlen⟩ := required_fragmented h hs
    have hmtu := p.maxPayloadLength_eq
    have hlt := p.mtu_lt
    have haligned := p.mtu_aligned
    have hge := p.maxPayloadLength_ge
    rw [frames, hs, if_neg Bool.false_ne_true]
    rw [hreq] at hend ⊢
    have hchain := fragments_chain hge p.maxPayloadLength_aligned (by omega) hlo lo (by omega)
    refine hchain.map _ ?_
    intro f hf
    refine ⟨rfl, ?_⟩
    obtain ⟨hpos, hmax⟩ := fragmentLoop_bytes hge _ _ _ _ f hf
    obtain ⟨hoff, _, hstop⟩ := hchain.bounds hf
    have hword : i32 (f.bytesToWrite + headerLength) = f.bytesToWrite + 32 :=
      i32_eq (by unfold headerLength; omega)
    rw [hword, FrameHeader.stop_eq _ (show 0 ≤ f.bytesToWrite + 32 by omega)
      (show f.bytesToWrite + 32 ≤ 2147483616 by omega), Fragment.stop]
    show f.offset + (f.bytesToWrite + 32 + 31) / 32 * 32 = f.offset + (f.bytesToWrite + 63) / 32 * 32
    omega

end Call

variable {call : Call} {i : Nat} {s t : State} {term : Int}

/-- The frames a get-and-add leads to: up to the term's end they fill what it claimed. -/
theorem appendFrames_chain (h : call.Accepted p) {claimed : Int}
    (hbound : tailOffset claimed < 2147483648) (ha : tailOffset claimed % 32 = 0) :
    Chain FrameHeader.offset FrameHeader.stop (min (tailOffset claimed) p.termLength)
      (appendFrames p call claimed) (min (tailOffset claimed + call.required p) p.termLength) := by
  have hlo := tailOffset_nonneg claimed
  have hword : i32 (tailOffset claimed) = tailOffset claimed := i32_eq ⟨by omega, hbound⟩
  have hpos := (Call.required_bounds h).1
  unfold appendFrames
  rw [hword]
  split
  next hlt =>
    rw [min_eq_right (show p.termLength ≤ tailOffset claimed + call.required p by omega)]
    exact paddingFrames_chain p _ hlo ha
  next hge =>
    rw [min_eq_left (show tailOffset claimed ≤ p.termLength by omega),
      min_eq_left (show tailOffset claimed + call.required p ≤ p.termLength by omega)]
    exact Call.frames_chain h _ hlo (by omega)

/-! ## What a step can do -/

/-- What a publisher's place says: the checks its call has passed, the partition it will index, the
frames it still owes, and what its swap of a tail compares. -/
def PcSound (p : LogParams) (claims : List Claimed) : Pc → Prop
  | .readLimit call => call.overflows = false ∧ call.refused p = false
  | .readCount call _ => call.overflows = false ∧ call.refused p = false
  | .readTail call _ _ => call.overflows = false ∧ call.refused p = false
  | .add call termCount _ => call.Accepted p ∧ 0 ≤ indexByTermCount termCount
  | .write left _ _ => ∀ f ∈ left, ∃ c ∈ claims, f ∈ c.frames
  | .rotateSet termCount termId rawTail =>
    0 ≤ indexByTermCount (i32 (termCount + 1)) ∧ i32 (i32 (termId + 1) - 3) = termID rawTail
  | _ => True

/-- One publisher moves, and neither tails nor frames are touched. -/
structure Moved (s t : State) (i : Nat) (pc : Pc) : Prop where
  tails : t.tails = s.tails
  terms : t.terms = s.terms
  claims : t.claims = s.claims
  written : t.written = s.written
  publishers : t.publishers = fun j => if j = i then pc else s.publishers j

/-- The publisher has frames to write. -/
def Pc.writing : Pc → Bool
  | .write _ _ _ => true
  | _ => false

/-- One publisher moves, to no frame writes, and returns at most an answer that is no position. -/
structure Quiet (s t : State) (i : Nat) (pc : Pc) : Prop extends Moved s t i pc where
  writing : pc.writing = false ∨ pc = s.publishers i
  returned : t.returned = s.returned ∨
    ∃ value, value ≤ 0 ∧ t.returned = s.returned ++ [⟨value, [], none⟩]

variable {a : Action} {pc : Pc} {termCount termId : Int}

/-- The step that returns a position. -/
def returnStep (p : LogParams) (s : State) (i : Nat) (done : List FrameHeader) (a : Append) : State :=
  { s.goto i .idle with returned := s.returned ++ [⟨newPosition p a, done, some a⟩] }

/-- The step that stores a frame. -/
def storeStep (s : State) (i : Nat) (f : FrameHeader) (left done : List FrameHeader) (a : Append) : State :=
  { s.goto i (.write left (done ++ [f]) a) with written := s.written ++ [f] }

/-- The step that takes a partition to its next term. -/
def enterStep (s : State) (i : Nat) (termCount termId : Int) : State :=
  { s with
    tails := fun j =>
      if j = indexByTermCount (i32 (termCount + 1)) then rawTailOf (i32 (termId + 1)) else s.tails j
    terms := fun j => if j = indexByTermCount (i32 (termCount + 1)) then s.terms j + 3 else s.terms j
    publishers := fun j => if j = i then .rotateCount termCount else s.publishers j }

/-- The place of a call that its next step ends in a panic. -/
def Pc.Panics (p : LogParams) : Pc → Prop
  | .entry call => call.overflows = true ∨ call.refused p = true
  | .readTail call _ n => indexByTermCount n < 0 ∨ call.tooLong p = true
  | .rotateRead n _ => indexByTermCount (i32 (n + 1)) < 0
  | _ => False

/-- What the next step of a publisher does from the place where it stands. -/
inductive Move (p : LogParams) (s : State) (i : Nat) : Pc → State → Prop
  | panics {pc : Pc} (h : pc.Panics p) : Move p s i pc (s.goto i .panicked)
  | closed {call : Call} : Move p s i (.entry call) (s.answer i publicationClosed)
  | enters {call : Call} (hover : call.overflows = false) (hrefused : call.refused p = false) :
      Move p s i (.entry call) (s.goto i (.readLimit call))
  | readLimit {call : Call} : Move p s i (.readLimit call) (s.goto i (.readCount call s.limit))
  | readCount {call : Call} {limit : Int} :
      Move p s i (.readCount call limit) (s.goto i (.readTail call limit s.activeTermCount))
  | stale {call : Call} {limit n : Int} (hne : n ≠ i32 (termID (s.tails (indexByTermCount n)) - p.initialTermId)) :
      Move p s i (.readTail call limit n) (s.answer i adminAction)
  | exceeds {call : Call} {limit n : Int} (hlimit : limit ≤ tailPosition p (s.tails (indexByTermCount n)))
      (hmax : p.maxPossiblePosition ≤ i64 (tailPosition p (s.tails (indexByTermCount n)) + call.length)) :
      Move p s i (.readTail call limit n) (s.answer i maxPositionExceeded)
  | pressed {call : Call} {limit n : Int}
      (hmax : ¬ p.maxPossiblePosition ≤ i64 (tailPosition p (s.tails (indexByTermCount n)) + call.length)) :
      Move p s i (.readTail call limit n) (s.goto i .readConnected)
  | passes {call : Call} {limit n : Int} (hindex : 0 ≤ indexByTermCount n)
      (hlimit : ¬ limit ≤ tailPosition p (s.tails (indexByTermCount n))) (hlong : call.tooLong p = false) :
      Move p s i (.readTail call limit n) (s.goto i (.add call n (s.tails (indexByTermCount n))))
  | readConnected : Move p s i .readConnected (s.answer i (if s.connected then backPressured else notConnected))
  | claims {call : Call} {n raw : Int} : Move p s i (.add call n raw) (addStep p s i call n raw)
  | stores {f : FrameHeader} {left done : List FrameHeader} {a : Append} :
      Move p s i (.write (f :: left) done a) (storeStep s i f left done a)
  | returns {done : List FrameHeader} {a : Append} (hpos : 0 < a.resultingOffset) :
      Move p s i (.write [] done a) (returnStep p s i done a)
  | ends {done : List FrameHeader} {a : Append} (hneg : a.resultingOffset ≤ 0)
      (hmax : p.maxPossiblePosition < i64 (tailPosition p a.rawTail + tailOffset a.rawTail)) :
      Move p s i (.write [] done a) (s.answer i maxPositionExceeded)
  | rotates {done : List FrameHeader} {a : Append} (hneg : a.resultingOffset ≤ 0)
      (hmax : ¬ p.maxPossiblePosition < i64 (tailPosition p a.rawTail + tailOffset a.rawTail)) :
      Move p s i (.write [] done a) (s.goto i (.rotateRead a.termCount (termID a.claimed)))
  | rotated {n id : Int} (hindex : 0 ≤ indexByTermCount (i32 (n + 1)))
      (hne : i32 (i32 (id + 1) - 3) ≠ termID (s.tails (indexByTermCount (i32 (n + 1))))) :
      Move p s i (.rotateRead n id) (s.goto i (.rotateCount n))
  | readNext {n id : Int} (hindex : 0 ≤ indexByTermCount (i32 (n + 1)))
      (hid : i32 (i32 (id + 1) - 3) = termID (s.tails (indexByTermCount (i32 (n + 1))))) :
      Move p s i (.rotateRead n id) (s.goto i (.rotateSet n id (s.tails (indexByTermCount (i32 (n + 1))))))
  | turns {n id : Int} :
      Move p s i (.rotateSet n id (s.tails (indexByTermCount (i32 (n + 1))))) (enterStep s i n id)
  | overtaken {n id raw : Int} : Move p s i (.rotateSet n id raw) (s.goto i (.rotateRead n id))
  | counts {n : Int} : Move p s i (.rotateCount n) ({ s with activeTermCount := i32 (n + 1) }.answer i adminAction)
  | counted {n : Int} : Move p s i (.rotateCount n) (s.answer i adminAction)

/-- Every step of a publisher is one of the moves. -/
theorem move_of_step (h : step p s (.step i) = some t) : Move p s i (s.publishers i) t := by
  simp only [step] at h
  generalize s.publishers i = pc at h
  cases pc with
  | idle | panicked => cases h
  | entry call =>
    cases h
    split
    next hover => exact .panics (.inl hover)
    next hover =>
      split
      · exact .closed
      · split
        next hrefused => exact .panics (.inr hrefused)
        next hrefused => exact .enters (Bool.eq_false_of_not_eq_true hover) (Bool.eq_false_of_not_eq_true hrefused)
  | readLimit call => cases h; exact .readLimit
  | readCount call limit => cases h; exact .readCount
  | readTail call limit n =>
    cases h
    simp only [readTailStep]
    split
    next hindex => exact .panics (.inl hindex)
    next hindex =>
      split
      next hstale => exact .stale hstale.2
      next =>
        split
        next hlimit =>
          split
          next hmax => exact .exceeds hlimit hmax
          next hmax => exact .pressed hmax
        next hlimit =>
          split
          next hlong => exact .panics (.inr hlong)
          next hlong => exact .passes (Int.not_lt.mp hindex) hlimit (Bool.eq_false_of_not_eq_true hlong)
  | readConnected => cases h; exact .readConnected
  | add call n raw => cases h; exact .claims
  | write left done a =>
    cases left with
    | nil =>
      cases h
      unfold finishStep
      split
      next hpos => exact .returns hpos
      next hneg =>
        split
        next hmax => exact .ends (Int.not_lt.mp hneg) hmax
        next hmax => exact .rotates (Int.not_lt.mp hneg) hmax
    | cons f left => cases h; exact .stores
  | rotateRead n id =>
    cases h
    simp only [rotateReadStep]
    split
    next hindex => exact .panics hindex
    next hindex =>
      split
      next hne => exact .rotated (Int.not_lt.mp hindex) hne
      next hid => exact .readNext (Int.not_lt.mp hindex) (of_not_not hid)
  | rotateSet n id raw =>
    cases h
    simp only [rotateSetStep]
    split
    next hraw =>
      subst hraw
      exact .turns
    next => exact .overtaken
  | rotateCount n =>
    cases h
    simp only [rotateCountStep]
    split
    · exact .counts
    · exact .counted

/-- A step moves a publisher, returns a position, stores a frame, claims, or takes a partition to its
next term. -/
inductive StepCase (p : LogParams) (s : State) (act : Action) (t : State) : Prop
  | quiet (i : Nat) (pc : Pc) (h : Quiet s t i pc) (hpc : PcSound p s.claims pc)
  | finish (i : Nat) (done : List FrameHeader) (a : Append) (hpc : s.publishers i = .write [] done a)
      (hpos : 0 < a.resultingOffset) (h : t = returnStep p s i done a)
  | store (i : Nat) (f : FrameHeader) (left done : List FrameHeader) (a : Append)
      (hpc : s.publishers i = .write (f :: left) done a) (h : t = storeStep s i f left done a)
  | claim (i : Nat) (call : Call) (termCount rawTail : Int) (hact : act = .step i)
      (hpc : s.publishers i = .add call termCount rawTail) (h : t = addStep p s i call termCount rawTail)
  | enter (i : Nat) (termCount termId : Int)
      (hpc : s.publishers i = .rotateSet termCount termId (s.tails (indexByTermCount (i32 (termCount + 1)))))
      (h : t = enterStep s i termCount termId)

/-- A publisher moves on. -/
theorem StepCase.goes {act : Action} (hpc : PcSound p s.claims pc) (hw : pc.writing = false) :
    StepCase p s act (s.goto i pc) :=
  .quiet i pc ⟨⟨rfl, rfl, rfl, rfl, rfl⟩, .inl hw, .inl rfl⟩ hpc

/-- A publisher returns an answer that is no position. -/
theorem StepCase.answers {act : Action} {value : Int} (hv : value ≤ 0) :
    StepCase p s act (s.answer i value) :=
  .quiet i .idle ⟨⟨rfl, rfl, rfl, rfl, rfl⟩, .inl rfl, .inr ⟨value, hv, rfl⟩⟩ trivial

/-- Every step is quiet, stores a frame, claims, enters a term or returns. -/
theorem step_cases (hpcs : ∀ i, PcSound p s.claims (s.publishers i))
    (h : step p s a = some t) : StepCase p s a t := by
  cases a with
  | invoke i call =>
    simp only [step] at h
    split at h
    · cases h
      exact .goes trivial rfl
    · cases h
  | driver limit connected closed =>
    cases h
    refine .quiet 0 (s.publishers 0) ⟨⟨rfl, rfl, rfl, rfl, ?_⟩, Or.inr rfl, Or.inl rfl⟩ (hpcs 0)
    funext j
    split
    next hj => rw [hj]
    next => rfl
  | step i =>
    have hpc := hpcs i
    have hmove := move_of_step h
    generalize hi : s.publishers i = pc at hpc hmove
    cases hmove with
    | panics | pressed | rotates | rotated | overtaken => exact .goes trivial rfl
    | closed | stale | exceeds | ends | counted => exact .answers (by decide)
    | enters hover hrefused => exact .goes ⟨hover, hrefused⟩ rfl
    | readLimit | readCount => exact .goes hpc rfl
    | passes hindex _ hlong => exact .goes ⟨Call.accepted_of_checks hpc.1 hpc.2 hlong, hindex⟩ rfl
    | readConnected => exact .answers (by split <;> decide)
    | claims => exact .claim i _ _ _ rfl hi rfl
    | stores => exact .store i _ _ _ _ hi rfl
    | returns hpos => exact .finish i _ _ hi hpos rfl
    | readNext hindex hid => exact .goes ⟨hindex, hid⟩ rfl
    | turns => exact .enter i _ _ hi rfl
    | counts =>
      exact .quiet i .idle ⟨⟨rfl, rfl, rfl, rfl, rfl⟩, .inl rfl, .inr ⟨adminAction, by decide, rfl⟩⟩ trivial

/-! ## The invariant -/

/-- The claims that fell in a term, in the order in which they were made. -/
def State.claimsIn (s : State) (n : Int) : List Claimed := s.claims.filter fun c => c.term = n

/-- A partition's raw tail says which term it is in, up to the wrapping of term ids. -/
structure PartitionSound (p : LogParams) (i term tail : Int) : Prop where
  range : I64 tail
  termId : termID tail = i32 (p.initialTermId + term)
  residue : term % 3 = i
  bounded : tailOffset tail < 2147483648
  aligned : tailOffset tail % 32 = 0

/-- A claim's frames fill it up to the end of the term; it pads only if it trips. -/
structure ClaimSound (p : LogParams) (c : Claimed) : Prop where
  frames : Chain FrameHeader.offset FrameHeader.stop (min c.offset p.termLength) c.frames
    (min c.stop p.termLength)
  tripped : c.result = appenderTripped ↔ c.offset ≤ p.termLength ∧ p.termLength < c.stop
  padding : c.frames.countP (fun f => f.frameType = typePad) ≤
    if c.offset ≤ p.termLength ∧ p.termLength < c.stop then 1 else 0

/-- What every step keeps of the log. -/
structure LogSound (p : LogParams) (s : State) : Prop where
  partition : ∀ i, 0 ≤ i → i < 3 → PartitionSound p i (s.terms i) (s.tails i)
  claims : ∀ c ∈ s.claims, ClaimSound p c
  /-- Nobody has claimed in a term that its partition has not entered. -/
  entered : ∀ c ∈ s.claims, c.term ≤ s.terms (c.term % 3)
  /-- The claims of a term are a chain, up to the tail while the partition is in that term. -/
  chain : ∀ n, ∃ reach, Chain Claimed.offset Claimed.stop 0 (s.claimsIn n) reach ∧
    ∀ i, 0 ≤ i → i < 3 → s.terms i = n → tailOffset (s.tails i) = reach
  written : ∀ f ∈ s.written, ∃ c ∈ s.claims, f ∈ c.frames
  publishers : ∀ i, PcSound p s.claims (s.publishers i)

theorem PartitionSound.initial (p : LogParams) {i : Int} (hres : term % 3 = i) :
    PartitionSound p i term (rawTailOf (i32 (p.initialTermId + term))) := by
  have hid := i32_range (p.initialTermId + term)
  rw [rawTailOf_eq hid]
  have hoff := tailOffset_rawTail (i32 (p.initialTermId + term)) (le_refl 0) (by decide)
  exact ⟨rawTail_range hid (le_refl 0) (by decide), termID_rawTail hid (le_refl 0) (by decide), hres,
    by rw [hoff]; decide, by rw [hoff]; decide⟩

theorem logSound_initial (p : LogParams) : LogSound p (State.initial p) := by
  refine ⟨?_, nofun, nofun, ?_, nofun, fun _ => trivial⟩
  · intro i lo hi
    refine PartitionSound.initial p ?_
    show (if i = 0 then 0 else i - 3) % 3 = i
    split <;> omega
  · intro n
    refine ⟨0, rfl, ?_⟩
    intro i lo hi _
    show tailOffset (rawTailOf (i32 _)) = 0
    rw [rawTailOf_eq (i32_range _)]
    exact tailOffset_rawTail _ (le_refl 0) (by decide)

/-! ## The invariant is kept -/

/-- More claims take nothing away from a publisher. -/
theorem PcSound.mono {claims claims' : List Claimed} (h : PcSound p claims pc)
    (hsub : ∀ c ∈ claims, c ∈ claims') : PcSound p claims' pc := by
  cases pc with
  | write left done a =>
    intro f hf
    obtain ⟨c, hc, hfc⟩ := h f hf
    exact ⟨c, hsub c hc, hfc⟩
  | _ => exact h

/-- A quiet step leaves the log. -/
theorem LogSound.moved (h : LogSound p s) (hq : Moved s t i pc)
    (hpc : PcSound p s.claims pc) : LogSound p t := by
  obtain ⟨htails, hterms, hclaims, hwritten, hpublishers⟩ := hq
  refine ⟨?_, ?_, ?_, ?_, ?_, ?_⟩
  · rw [htails, hterms]; exact h.partition
  · rw [hclaims]; exact h.claims
  · rw [hclaims, hterms]; exact h.entered
  · simp only [State.claimsIn, htails, hterms, hclaims]; exact h.chain
  · rw [hwritten, hclaims]; exact h.written
  · rw [hpublishers, hclaims]; exact forall_moved h.publishers hpc

/-- A frame that is stored is one of the frames of a claim. -/
theorem LogSound.store {f : FrameHeader} {left done : List FrameHeader}
    {a : Append} (h : LogSound p s) (hi : s.publishers i = .write (f :: left) done a) :
    LogSound p (storeStep s i f left done a) := by
  have hpc : ∀ g ∈ f :: left, ∃ c ∈ s.claims, g ∈ c.frames := by
    have := h.publishers i
    rwa [hi] at this
  refine ⟨h.partition, h.claims, h.entered, h.chain, ?_, ?_⟩
  · intro g hg
    rcases List.mem_append.mp hg with hg | hg
    · exact h.written g hg
    · rw [List.mem_singleton.mp hg]
      exact hpc f List.mem_cons_self
  · exact forall_moved h.publishers fun g hg => hpc g (List.mem_cons_of_mem f hg)

/-- The tail after a get-and-add. -/
theorem PartitionSound.add {i tail delta : Int} (h : PartitionSound p i term tail) (lo : 0 ≤ delta)
    (hi : delta < 2147483648) (ha : delta % 32 = 0) :
    tailOffset (i64 (tail + delta)) = tailOffset tail + delta ∧
      (tailOffset tail + delta < 2147483648 → PartitionSound p i term (i64 (tail + delta))) := by
  have hb := h.bounded
  have hal := h.aligned
  have hnn := tailOffset_nonneg tail
  have hadd := rawTail_add h.range lo (by omega)
  have hoff : tailOffset (rawTail (termID tail) (tailOffset tail + delta)) = tailOffset tail + delta :=
    tailOffset_rawTail _ (by omega) (by omega)
  have hid : termID (rawTail (termID tail) (tailOffset tail + delta)) = termID tail :=
    termID_rawTail (termID_range tail) (by omega) (by omega)
  rw [hadd]
  refine ⟨hoff, fun hlt => ⟨?_, hid.trans h.termId, h.residue, by rw [hoff]; exact hlt, by rw [hoff]; omega⟩⟩
  exact rawTail_range (termID_range tail) (by omega) (by omega)

/-- A get-and-add claims from the old tail to the new one. -/
theorem claimSound_add (h : call.Accepted p) {claimed : Int}
    (hbound : tailOffset claimed < 2147483648) (ha : tailOffset claimed % 32 = 0) :
    ClaimSound p ⟨term, tailOffset claimed, tailOffset claimed + call.required p,
      appendResult p call claimed, appendFrames p call claimed⟩ := by
  have hlo := tailOffset_nonneg claimed
  have hpos := (Call.required_bounds h).1
  have hge := p.termLength_ge
  have hword : i32 (tailOffset claimed) = tailOffset claimed := i32_eq ⟨by omega, hbound⟩
  refine ⟨appendFrames_chain h hbound ha, ?_, ?_⟩
  · unfold appendResult endOfLogResult appenderTripped appenderFailed
    simp only [hword]
    split
    · split <;> omega
    · omega
  · unfold appendFrames paddingFrames
    simp only [hword]
    split
    · split
      · rw [if_pos (by omega)]
        exact List.countP_le_length
      · exact Nat.zero_le _
    · refine Nat.le_trans (Nat.le_of_eq ?_) (Nat.zero_le _)
      refine List.countP_eq_zero.mpr ?_
      intro f hf
      rw [decide_eq_true_eq, (Call.of_mem_frames hf).2]
      decide

/-- The claim that a get-and-add makes. -/
def newClaim (p : LogParams) (s : State) (call : Call) (index : Int) : Claimed :=
  ⟨s.terms index, tailOffset (s.tails index), tailOffset (s.tails index) + call.required p,
    appendResult p call (s.tails index), appendFrames p call (s.tails index)⟩

theorem addStep_tails (s : State) (i : Nat) (call : Call) (termCount raw : Int) :
    (addStep p s i call termCount raw).tails (indexByTermCount termCount) =
      i64 (s.tails (indexByTermCount termCount) + call.required p) :=
  if_pos rfl

theorem addStep_tails_of_ne (s : State) (i : Nat) (call : Call) (termCount raw : Int) {j : Int}
    (hj : j ≠ indexByTermCount termCount) :
    (addStep p s i call termCount raw).tails j = s.tails j :=
  if_neg hj

theorem mem_addStep_claims {raw : Int} {c : Claimed} :
    c ∈ (addStep p s i call termCount raw).claims ↔
      c ∈ s.claims ∨ c = newClaim p s call (indexByTermCount termCount) := by
  show c ∈ s.claims ++ [_] ↔ _
  rw [List.mem_append, List.mem_singleton]
  rfl

/-- The claim comes last among those of its term. -/
theorem claimsIn_addStep (s : State) (i : Nat) (call : Call) (termCount raw n : Int) :
    (addStep p s i call termCount raw).claimsIn n =
      s.claimsIn n ++ if s.terms (indexByTermCount termCount) = n then
        [newClaim p s call (indexByTermCount termCount)] else [] := by
  show (s.claims ++ [newClaim p s call (indexByTermCount termCount)]).filter _ = _
  rw [List.filter_append, State.claimsIn]
  congr 1
  by_cases hn : s.terms (indexByTermCount termCount) = n
  · rw [if_pos hn]
    exact List.filter_cons_of_pos (decide_eq_true hn)
  · rw [if_neg hn]
    exact List.filter_cons_of_neg fun h => hn (of_decide_eq_true h)

/-- A get-and-add extends the chain of its term. -/
theorem LogSound.claim {raw : Int} (h : LogSound p s)
    (hi : s.publishers i = .add call termCount raw)
    (hbound : ∀ j, 0 ≤ j → j < 3 → tailOffset ((addStep p s i call termCount raw).tails j) < 2147483648) :
    LogSound p (addStep p s i call termCount raw) := by
  obtain ⟨hacc, hlo⟩ : call.Accepted p ∧ 0 ≤ indexByTermCount termCount := by
    have := h.publishers i
    rwa [hi] at this
  have hlt := indexByTermCount_lt termCount
  have hpart := h.partition _ hlo hlt
  obtain ⟨hpos, hmax, haligned⟩ := Call.required_bounds hacc
  obtain ⟨hoff, hnext⟩ := hpart.add hpos.le hmax haligned
  have hbound := hbound _ hlo hlt
  rw [addStep_tails, hoff] at hbound
  refine ⟨?_, ?_, ?_, ?_, ?_, ?_⟩
  · intro j hj hj'
    by_cases he : j = indexByTermCount termCount
    · rw [he, addStep_tails]
      exact hnext hbound
    · rw [addStep_tails_of_ne _ _ _ _ _ he]
      exact h.partition j hj hj'
  · intro c hc
    rcases mem_addStep_claims.mp hc with hc | rfl
    · exact h.claims c hc
    · exact claimSound_add hacc hpart.bounded hpart.aligned
  · intro c hc
    rcases mem_addStep_claims.mp hc with hc | rfl
    · exact h.entered c hc
    · show s.terms _ ≤ s.terms (s.terms _ % 3)
      rw [hpart.residue]
  · intro n
    obtain ⟨reach, hchain, htail⟩ := h.chain n
    by_cases hn : s.terms (indexByTermCount termCount) = n
    · -- the new claim starts at the tail, where the chain of its term ends
      have hreach := htail _ hlo hlt hn
      refine ⟨reach + call.required p, ?_, ?_⟩
      · rw [claimsIn_addStep, if_pos hn]
        refine hchain.append ⟨hreach, ?_, ?_⟩
        · exact Int.lt_add_of_pos_right _ hpos
        · exact congrArg (· + call.required p) hreach
      · intro j hj hj' hterm
        have he : j = indexByTermCount termCount := by
          have hres := (h.partition j hj hj').residue
          rw [← hres, ← hpart.residue]
          exact congrArg (· % 3) (hterm.trans hn.symm)
        rw [he, addStep_tails, hoff, hreach]
    · refine ⟨reach, ?_, ?_⟩
      · rw [claimsIn_addStep, if_neg hn, List.append_nil]
        exact hchain
      · intro j hj hj' hterm
        have he : j ≠ indexByTermCount termCount := fun he => hn (he ▸ hterm)
        rw [addStep_tails_of_ne _ _ _ _ _ he]
        exact htail j hj hj' hterm
  · intro f hf
    obtain ⟨c, hc, hfc⟩ := h.written f hf
    exact ⟨c, mem_addStep_claims.mpr (Or.inl hc), hfc⟩
  · refine forall_moved (fun j => (h.publishers j).mono fun c hc => mem_addStep_claims.mpr (Or.inl hc)) ?_
    intro f hf
    exact ⟨_, mem_addStep_claims.mpr (Or.inr rfl), hf⟩

/-- The term id that `RotateLog` stores is three terms after the one it compares. -/
theorem PartitionSound.enter {i tail : Int} (h : PartitionSound p i term tail)
    (hid : i32 (i32 (termId + 1) - 3) = termID tail) :
    PartitionSound p i (term + 3) (rawTailOf (i32 (termId + 1))) := by
  have hnext : i32 (termId + 1) = i32 (p.initialTermId + (term + 3)) := by
    rw [h.termId] at hid
    have hmod := (i32_eq_iff _ _).mp hid
    rw [← i32_of_I32 (i32_range (termId + 1))]
    refine (i32_eq_iff _ _).mpr ?_
    rw [← hmod]
    congr 1
    ring
  have hres := h.residue
  rw [hnext]
  exact PartitionSound.initial p (by omega)

theorem tailOffset_rawTailOf (h : I32 termId) : tailOffset (rawTailOf termId) = 0 := by
  rw [rawTailOf_eq h]
  exact tailOffset_rawTail _ (le_refl 0) (by decide)

/-- A term that a partition enters has no claims. -/
theorem LogSound.enter (h : LogSound p s)
    (hi : s.publishers i = .rotateSet termCount termId (s.tails (indexByTermCount (i32 (termCount + 1))))) :
    LogSound p (enterStep s i termCount termId) := by
  obtain ⟨hlo, hid⟩ : 0 ≤ indexByTermCount (i32 (termCount + 1)) ∧ i32 (i32 (termId + 1) - 3) =
      termID (s.tails (indexByTermCount (i32 (termCount + 1)))) := by
    have := h.publishers i
    rwa [hi] at this
  have hlt := indexByTermCount_lt (i32 (termCount + 1))
  unfold enterStep
  generalize indexByTermCount (i32 (termCount + 1)) = index at *
  have hpart := h.partition index hlo hlt
  have hres := hpart.residue
  have hterms : ∀ j, s.terms j ≤ if j = index then s.terms j + 3 else s.terms j := by
    intro j
    split <;> omega
  refine ⟨?_, h.claims, ?_, ?_, h.written, forall_moved h.publishers trivial⟩
  · intro j hj hj'
    by_cases he : j = index
    · simp only [he, if_true]
      exact hpart.enter hid
    · simp only [he, if_false]
      exact h.partition j hj hj'
  · intro c hc
    exact Int.le_trans (h.entered c hc) (hterms _)
  · intro n
    obtain ⟨reach, hchain, htail⟩ := h.chain n
    refine ⟨reach, hchain, ?_⟩
    intro j hj hj' hterm
    by_cases he : j = index
    · -- nobody has claimed in the term that the partition enters
      simp only [he, if_true] at hterm ⊢
      have hnil : s.claimsIn n = [] := by
        refine List.filter_eq_nil_iff.mpr ?_
        intro c hc hcn
        have hcn : c.term = n := of_decide_eq_true hcn
        have hent := h.entered c hc
        rw [hcn, show n % 3 = index by omega] at hent
        omega
      rw [hnil] at hchain
      rw [tailOffset_rawTailOf (i32_range _)]
      exact hchain
    · simp only [he, if_false] at hterm ⊢
      exact htail j hj hj' hterm

/-! ## Runs -/

/-- No tail offset reaches `2 ^ 31`. -/
def TailsBounded (s : State) : Prop := ∀ i ∈ [0, 1, 2], tailOffset (s.tails i) < 2147483648

instance (s : State) : Decidable (TailsBounded s) :=
  inferInstanceAs (Decidable (∀ i ∈ [0, 1, 2], _))

/-- A step that leaves the tails bounded. -/
def StaysBounded (p : LogParams) (s : State) (a : Action) : Prop := (step p s a).all fun t => TailsBounded t

instance (s : State) (a : Action) : Decidable (StaysBounded p s a) :=
  inferInstanceAs (Decidable (_ = true))

theorem tailsBounded_of_step (h : StaysBounded p s a) (ht : step p s a = some t)
    {i : Int} (lo : 0 ≤ i) (hi : i < 3) : tailOffset (t.tails i) < 2147483648 := by
  unfold StaysBounded at h
  rw [ht] at h
  refine of_decide_eq_true h i ?_
  have hi : i = 0 ∨ i = 1 ∨ i = 2 := by omega
  rcases hi with rfl | rfl | rfl <;> decide

/-- Every step keeps it, as long as no tail offset reaches `2 ^ 31`. -/
theorem LogSound.step (h : LogSound p s) (hb : StaysBounded p s a)
    (ht : Publication.step p s a = some t) : LogSound p t := by
  cases step_cases h.publishers ht with
  | quiet i pc hq hpc => exact h.moved hq.toMoved hpc
  | finish i done a hpc hpos he =>
    have hm : Moved s t i .idle := by subst he; exact ⟨rfl, rfl, rfl, rfl, rfl⟩
    exact h.moved hm trivial
  | store i f left done a hpc he => exact he ▸ h.store hpc
  | claim i call termCount raw hact hpc he =>
    subst he
    exact h.claim hpc fun j lo hi => tailsBounded_of_step hb ht lo hi
  | enter i termCount termId hpc he => exact he ▸ h.enter hpc

/-- The publishers' runs in which no tail offset reaches `2 ^ 31`. -/
def boundedSystem (p : LogParams) : System State Action := (publisherSystem p).guard (StaysBounded p)

theorem logSound_of_reachable (h : (boundedSystem p).Reachable s) : LogSound p s := by
  refine h.invariant (I := LogSound p) ?_ ?_
  · intro s hs
    exact hs ▸ logSound_initial p
  · intro s a t hs hstep
    exact hs.step hstep.1 hstep.2

/-- No partition's tail goes back to an earlier term, or to a smaller offset in the same term. -/
def TailsAdvance (s t : State) : Prop :=
  ∀ i, 0 ≤ i → i < 3 → s.terms i ≤ t.terms i ∧
    (s.terms i = t.terms i → tailOffset (s.tails i) ≤ tailOffset (t.tails i))

theorem tailsAdvance_trans (s t u : State) (h : TailsAdvance s t) (h' : TailsAdvance t u) :
    TailsAdvance s u := by
  intro i lo hi
  obtain ⟨hterm, hoff⟩ := h i lo hi
  obtain ⟨hterm', hoff'⟩ := h' i lo hi
  refine ⟨Int.le_trans hterm hterm', ?_⟩
  intro he
  exact Int.le_trans (hoff (by omega)) (hoff' (by omega))

/-- No step moves a tail back. -/
theorem LogSound.tailsAdvance (h : LogSound p s)
    (ht : Publication.step p s a = some t) : TailsAdvance s t := by
  intro i lo hi
  cases step_cases h.publishers ht with
  | quiet j pc hq hpc => rw [hq.terms, hq.tails]; exact ⟨le_refl _, fun _ => le_refl _⟩
  | finish j done a hpc hpos he | store j f left done a hpc he => rw [he]; exact ⟨le_refl _, fun _ => le_refl _⟩
  | claim j call termCount raw hact hpc he =>
    subst he
    refine ⟨le_refl _, fun _ => ?_⟩
    by_cases heq : i = indexByTermCount termCount
    · have hpcs := h.publishers j
      rw [hpc] at hpcs
      obtain ⟨hpos, hmax, haligned⟩ := Call.required_bounds hpcs.1
      have hpart := h.partition i lo hi
      rw [heq] at hpart ⊢
      rw [addStep_tails, (hpart.add hpos.le hmax haligned).1]
      omega
    · rw [addStep_tails_of_ne _ _ _ _ _ heq]
  | enter j termCount termId hpc he =>
    subst he
    by_cases heq : i = indexByTermCount (i32 (termCount + 1))
    · have hterm : (enterStep s j termCount termId).terms i = s.terms i + 3 := if_pos heq
      rw [hterm]
      exact ⟨by omega, fun he => absurd he (by omega)⟩
    · have hterm : (enterStep s j termCount termId).terms i = s.terms i := if_neg heq
      have htail : (enterStep s j termCount termId).tails i = s.tails i := if_neg heq
      rw [hterm, htail]
      exact ⟨le_refl _, fun _ => le_refl _⟩

/-! ## The regions of a term -/

/-- The frames claimed in a term: those of the appends that fit, and the padding. -/
def State.framesIn (s : State) (n : Int) : List FrameHeader := (s.claimsIn n).flatMap Claimed.frames

/-- Some claim in the term goes past its end. -/
def Trips (p : LogParams) (s : State) (n : Int) : Prop := ∃ c ∈ s.claimsIn n, p.termLength < c.stop

/-- Up to the end of the term, the frames of adjacent claims are adjacent. -/
theorem frames_of_claims_chain (l : List Claimed) :
    ∀ {a b : Int}, Chain Claimed.offset Claimed.stop a l b → (∀ c ∈ l, ClaimSound p c) →
      Chain FrameHeader.offset FrameHeader.stop (min a p.termLength) (l.flatMap Claimed.frames)
        (min b p.termLength) := by
  induction l with
  | nil => intro a b h _; cases h; rfl
  | cons c rest ih =>
    intro a b h hs
    obtain ⟨hlo, _, hrest⟩ := h
    have hc := (hs c List.mem_cons_self).frames
    rw [hlo] at hc
    rw [List.flatMap_cons]
    exact hc.append (ih hrest fun x hx => hs x (List.mem_cons_of_mem c hx))

theorem countP_padding_le (l : List Claimed) (hs : ∀ c ∈ l, ClaimSound p c) :
    (l.flatMap Claimed.frames).countP (fun f => f.frameType = typePad) ≤
      l.countP fun c => c.offset ≤ p.termLength ∧ p.termLength < c.stop := by
  induction l with
  | nil => exact Nat.le_refl 0
  | cons c rest ih =>
    rw [List.flatMap_cons, List.countP_append, List.countP_cons, Nat.add_comm]
    refine Nat.add_le_add (ih fun x hx => hs x (List.mem_cons_of_mem c hx)) ?_
    simpa using (hs c List.mem_cons_self).padding

/-- One claim of a chain trips if the chain passes the term's end, and none otherwise. -/
theorem countP_tripped {l : List Claimed} {reach : Int} (h : Chain Claimed.offset Claimed.stop 0 l reach) :
    l.countP (fun c => c.offset ≤ p.termLength ∧ p.termLength < c.stop) =
      if p.termLength < reach then 1 else 0 := by
  have hge := p.termLength_ge
  rw [h.countP_at p.termLength]
  exact if_congr (by omega) rfl rfl

namespace LogSound

variable {s : State} (h : LogSound p s)

include h

theorem claimsIn_sound (n : Int) : ∀ c ∈ s.claimsIn n, ClaimSound p c :=
  fun c hc => h.claims c (List.mem_filter.mp hc).1

/-- The claims of a term are a chain from its start. -/
theorem claims_chain (n : Int) :
    ∃ reach, 0 ≤ reach ∧ Chain Claimed.offset Claimed.stop 0 (s.claimsIn n) reach := by
  obtain ⟨reach, hchain, _⟩ := h.chain n
  exact ⟨reach, hchain.le, hchain⟩

/-- The frames of a term do not overlap. -/
theorem framesIn_pairwise (n : Int) : (s.framesIn n).Pairwise fun f g => f.stop ≤ g.offset := by
  obtain ⟨reach, _, hchain⟩ := h.claims_chain n
  exact (frames_of_claims_chain _ hchain (h.claimsIn_sound n)).pairwise

/-- A term has at most one padding frame. -/
theorem countP_padding (n : Int) :
    (s.framesIn n).countP (fun f => f.frameType = typePad) ≤ 1 := by
  obtain ⟨reach, _, hchain⟩ := h.claims_chain n
  refine Nat.le_trans (countP_padding_le _ (h.claimsIn_sound n)) ?_
  rw [countP_tripped hchain]
  split <;> decide

/-- A term that trips is filled exactly, and one claim in it observes the trip. -/
theorem trips (n : Int) (ht : Trips p s n) :
    (∀ z, (∃ f ∈ s.framesIn n, f.offset ≤ z ∧ z < f.stop) ↔ 0 ≤ z ∧ z < p.termLength) ∧
      (s.claimsIn n).countP (fun c => c.result = appenderTripped) = 1 := by
  obtain ⟨reach, hreach, hchain⟩ := h.claims_chain n
  obtain ⟨c, hc, hstop⟩ := ht
  have hge := p.termLength_ge
  have hend := (hchain.bounds hc).2.2
  constructor
  · intro z
    have hframes := frames_of_claims_chain _ hchain (h.claimsIn_sound n)
    rw [min_eq_left (by omega), min_eq_right (by omega)] at hframes
    exact hframes.mem_at_iff z
  · have hcount := countP_tripped (p := p) hchain
    rw [if_pos (by omega)] at hcount
    rw [← hcount]
    refine List.countP_congr ?_
    intro x hx
    simp only [decide_eq_true_eq]
    exact (h.claimsIn_sound n x hx).tripped

end LogSound

/-- For every interleaving of the publishers' steps in which no tail offset reaches `2 ^ 31`, and
every later state of the same run: the frames claimed in a term are disjoint, with at most one
padding frame; a term that trips is tiled exactly and one claim in it observes the trip; what is
stored was claimed; a partition's tail counts every claim made in its term; and no tail goes back. -/
theorem concurrent_appends_sound {s t : State} (hs : (boundedSystem p).Reachable s)
    (ht : ((boundedSystem p).after s).Reachable t) :
    (∀ n, (t.framesIn n).Pairwise (fun f g => f.stop ≤ g.offset) ∧
      (t.framesIn n).countP (fun f => f.frameType = typePad) ≤ 1) ∧
    (∀ n, Trips p t n →
      (∀ z, (∃ f ∈ t.framesIn n, f.offset ≤ z ∧ z < f.stop) ↔ 0 ≤ z ∧ z < p.termLength) ∧
      (t.claimsIn n).countP (fun c => c.result = appenderTripped) = 1) ∧
    (∀ f ∈ t.written, ∃ c ∈ t.claims, f ∈ c.frames) ∧
    (∀ i, 0 ≤ i → i < 3 → termID (t.tails i) = i32 (p.initialTermId + t.terms i) ∧
      Chain Claimed.offset Claimed.stop 0 (t.claimsIn (t.terms i)) (tailOffset (t.tails i))) ∧
    TailsAdvance s t := by
  have hsound := logSound_of_reachable (hs.trans ht)
  refine ⟨fun n => ⟨hsound.framesIn_pairwise n, hsound.countP_padding n⟩, hsound.trips,
    hsound.written, ?_, ?_⟩
  · intro i lo hi
    refine ⟨(hsound.partition i lo hi).termId, ?_⟩
    obtain ⟨reach, hchain, htail⟩ := hsound.chain (t.terms i)
    rw [htail i lo hi rfl]
    exact hchain
  · refine hs.relates (fun s i _ _ => ⟨le_refl _, fun _ => le_refl _⟩) tailsAdvance_trans ?_ ht
    intro s a t hs hstep
    exact (logSound_of_reachable hs).tailsAdvance hstep.2

/-! ### Three publishers trip one term -/

/-- A log of 64 KiB terms. -/
def smallLog : LogParams := .smallest

/-- A call and some steps of its publisher. -/
def calling (i : Nat) (call : Call) (steps : Nat) : List Action :=
  .invoke i call :: List.replicate steps (.step i)

/-- Publisher 1 fills seven eighths of a term; then three publishers read the same tail, one fits, one
trips and one fails, and all of them finish, two by rotating. -/
def threeTrip : List Action :=
  [.driver 1000000 true false] ++ (List.replicate 7 (calling 1 (.offer 8160) 7)).flatten ++
    calling 0 (.offer2 1000 3000) 4 ++ calling 1 (.tryClaim 8160) 4 ++ calling 2 (.offer 8161) 4 ++
    List.replicate 3 (.step 0) ++ [.step 1, .step 2, .step 2, .step 2, .step 1, .step 1, .step 2, .step 1,
      .step 2, .step 1]

theorem concurrent_appends_sound_tripped :
    ∃ t, ((boundedSystem smallLog).after (State.initial smallLog)).Reachable t ∧ Trips smallLog t 0 ∧
      (t.claimsIn 0).countP (fun c => c.result = appenderTripped) = 1 ∧
      TailsAdvance (State.initial smallLog) t := by
  obtain ⟨t, hreach, htrips⟩ := System.exists_reachable_guard (· = State.initial smallLog)
    (step smallLog) (StaysBounded smallLog) rfl threeTrip
    (fun t => t.activeTermCount = 1 ∧ ∃ c ∈ t.claimsIn 0, smallLog.termLength < c.stop) (by decide +kernel)
  obtain ⟨_, htrips⟩ := of_decide_eq_true htrips
  obtain ⟨_, hall, _, _, hadvance⟩ := concurrent_appends_sound (.start rfl) hreach
  exact ⟨t, hreach, htrips, (hall 0 htrips).2, hadvance⟩

end AeronGo.Publication
