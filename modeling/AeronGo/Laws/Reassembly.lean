import AeronGo.Laws.FragmentAssembler
import AeronGo.Machine.Keyed

/-!
# Reassembly is per session

What an assembler is fed with and what it hands on: data frames of any sessions, one after the other, and
the calls of its delegate. A well-formed stream of one session is a row of messages, each in one
unfragmented piece or in a first piece, middle pieces and a last one.

An assembler is a machine with a state for every session (`Machine.Keyed`), its builder.
-/

namespace AeronGo

open Machine Util Atomic LogBuffer

/-- A data frame that a poll hands over, and where the subscriber stands then. -/
structure Frame where
  buffer : Buffer
  offset : Int
  position : Int
  sessionId : Int
  flags : UInt8
  payload : List UInt8
  addressable : Addressable buffer
  offset_nonneg : 0 ≤ offset
  inside : offset + (payload.length + 32) ≤ buffer.length
  data_at : (Slot.data flags payload).At sessionId buffer.bytes offset

/-- A call of a delegate. -/
structure Call where
  buffer : Buffer
  offset : Int
  length : Int
  header : Header

namespace Call

/-- The call is for a message of the session: its header says so. -/
def isOf (sessionId : Int) (c : Call) : Bool :=
  (getSessionId c.header.buffer c.header.offset).toOption = some sessionId

/-- The bytes that the delegate can read. -/
def message (c : Call) : Except Stop (List UInt8) := c.buffer.writeBytes c.offset c.length

end Call

namespace FragmentAssembler

/-- The delegate that notes its calls. -/
def note : Delegate (List Call) := fun calls buffer offset length header =>
  .ok (calls ++ [⟨buffer, offset, length, header⟩])

/-- A new assembler is fed with frames. -/
def feed (frames : List Frame) : Except Stop (Builders × List Call) :=
  frames.foldlM (fun st f => onFragment note st f.buffer (f.offset + headerLength) f.payload.length f.offset)
    (fun _ => none, [])

end FragmentAssembler

namespace ControlledFragmentAssembler

open Image (ControlledPollAction)

/-- The delegate that notes its calls and answers as it is told. -/
def note (answer : Int → List Call → ControlledPollAction) : Delegate (List Call) :=
  fun calls position buffer offset length header =>
    let calls := calls ++ [⟨buffer, offset, length, header⟩]
    .ok (answer position calls, calls)

/-- A new assembler is fed with frames. A poll that ends is followed by one that goes on behind it. -/
def feed (answer : Int → List Call → ControlledPollAction) (frames : List Frame) : Except Stop (Builders × List Call) :=
  frames.foldlM (fun st f => Prod.snd <$> onFragment (note answer) st f.position f.buffer (f.offset + headerLength)
    f.payload.length f.offset) (fun _ => none, [])

end ControlledFragmentAssembler

/-! ## Well-formed streams -/

structure Piece where
  flags : UInt8
  payload : List UInt8
deriving DecidableEq, Repr

def Frame.piece (f : Frame) : Piece := ⟨f.flags, f.payload⟩

/-- The message that pieces make up. -/
def bytesOf (pieces : List Piece) : List UInt8 := pieces.flatMap (·.payload)

/-- The pieces of one message. -/
inductive IsMessage : List Piece → Prop
  | whole {p : Piece} : p.flags &&& unfragmented = unfragmented → IsMessage [p]
  | parts {first last : Piece} {middle : List Piece} : first.flags &&& unfragmented = beginFrag →
      (∀ p ∈ middle, p.flags &&& unfragmented = 0) → last.flags &&& unfragmented = endFrag →
      IsMessage (first :: (middle ++ [last]))

/-- The length of a message is a 32-bit word, as that of every offer. -/
structure WellFormed (stream : List (List Piece)) : Prop where
  isMessage : ∀ m ∈ stream, IsMessage m
  length_lt : ∀ m ∈ stream, ((bytesOf m).length : Int) < 2147483648

/-- The messages of a stream that begin behind its first pieces. -/
def begunBehind (missed : Nat) : List (List Piece) → List (List Piece)
  | [] => []
  | m :: messages => if missed = 0 then m :: messages else begunBehind (missed - m.length) messages

/-- An unfragmented message, or one whose first piece is not empty. -/
def isAssembled : List Piece → Bool
  | [] => false
  | [_] => true
  | first :: _ => first.payload ≠ []

/-- The calls for one session. -/
def callsFor (sessionId : Int) (fed : Except Stop (Builders × List Call)) : Except Stop (List Call) :=
  (fun st => st.2.filter (Call.isOf sessionId)) <$> fed

/-- **Reassembly is per session.** The calls for a session are those that its own frames alone give. If its frames
are what is left of a well-formed stream, those calls are for the messages that begin in what is left and can be
assembled, in order and byte for byte. -/
structure PerSession (feed : List Frame → Except Stop (Builders × List Call)) (sessionId : Int) (frames : List Frame) :
    Prop where
  returns : ∃ st, feed frames = .ok st
  apart : callsFor sessionId (feed frames) = Prod.snd <$> feed (frames.filter (·.sessionId = sessionId))
  messages : ∀ (missed : List Piece) (stream : List (List Piece)), WellFormed stream →
    missed ++ (frames.filter (·.sessionId = sessionId)).map Frame.piece = stream.flatten →
    ∃ calls, callsFor sessionId (feed frames) = .ok calls ∧
      calls.map Call.message = ((begunBehind missed.length stream).filter isAssembled).map (fun m => .ok (bytesOf m))

/-! ## The state of a session -/

def Frame.slot (f : Frame) : Slot := .data f.flags f.payload

/-- The call that a frame leads to. An unfragmented one is handed on where it lies. -/
def callOf (builder : List UInt8) (f : Frame) : List Call :=
  if f.flags &&& unfragmented = unfragmented then
    [⟨f.buffer, f.offset + headerLength, f.payload.length, ⟨f.buffer, f.offset⟩⟩]
  else (completes builder f.slot).toList.map fun bytes =>
    ⟨makeBuffer bytes, 0, i32 bytes.length, ⟨f.buffer, f.offset⟩⟩

/-- What a frame does to the builder of its session. -/
def take (builder : List UInt8) (f : Frame) : List UInt8 × List Call := (nextBuilder builder f.slot, callOf builder f)

theorem callOf_eq (builder : List UInt8) (f : Frame) :
    callOf builder f = (handedOn f.buffer f.offset builder f.flags f.payload).toList.map fun place =>
      ⟨place.1, place.2.1, place.2.2, ⟨f.buffer, f.offset⟩⟩ := by
  unfold callOf handedOn
  split
  · rfl
  · rw [Option.toList_map, List.map_map]
    rfl

section Take

variable (f : Frame) (builders : Builders) (calls : List Call)

/-- **`OnFragment` takes a frame**: the builder of its session changes as `take` says. -/
theorem FragmentAssembler.onFragment_take : ∃ builders',
    onFragment note (builders, calls) f.buffer (f.offset + headerLength) f.payload.length f.offset =
        .ok (builders', calls ++ (take (held builders f.sessionId) f).2) ∧
      held builders' = Function.update (held builders) f.sessionId (take (held builders f.sessionId) f).1 := by
  obtain ⟨builders', hheld, heq⟩ :=
    FragmentAssembler.onFragment_eq f.addressable f.offset_nonneg f.inside f.data_at note builders calls
  refine ⟨builders', ?_, hheld⟩
  rw [heq, take, callOf_eq]
  cases handedOn f.buffer f.offset (held builders f.sessionId) f.flags f.payload with
  | none => simp
  | some place => rfl

/-- The controlled one takes a frame the same way, if its delegate does not abort. -/
theorem ControlledFragmentAssembler.onFragment_take {answer : Int → List Call → Image.ControlledPollAction}
    (hanswer : ∀ position calls, answer position calls ≠ .abort) : ∃ builders',
    Prod.snd <$> onFragment (note answer) (builders, calls) f.position f.buffer (f.offset + headerLength)
        f.payload.length f.offset = .ok (builders', calls ++ (take (held builders f.sessionId) f).2) ∧
      held builders' = Function.update (held builders) f.sessionId (take (held builders f.sessionId) f).1 := by
  obtain ⟨next, hheld, heq⟩ := ControlledFragmentAssembler.onFragment_eq f.addressable f.offset_nonneg f.inside f.data_at
    (note answer) builders f.position calls
  have hnext : ∀ action, action ≠ .abort →
      held (next action) = Function.update (held builders) f.sessionId (take (held builders f.sessionId) f).1 := by
    intro action haction
    rw [hheld, if_neg haction]
    rfl
  rw [heq, take, callOf_eq]
  cases handedOn f.buffer f.offset (held builders f.sessionId) f.flags f.payload with
  | none => exact ⟨next .continue, by simp, hnext _ (by decide)⟩
  | some place => exact ⟨_, rfl, hnext _ (hanswer _ _)⟩

end Take

/-! ## Whole feeds -/

variable {builder : List UInt8} {stream : List (List Piece)}

/-- The session of a call is that of the frame that led to it. -/
theorem isOf_callOf {f : Frame} {c : Call} (hc : c ∈ callOf builder f) (sessionId : Int) :
    c.isOf sessionId = decide (f.sessionId = sessionId) := by
  have hheader : c.header = ⟨f.buffer, f.offset⟩ := by
    rw [callOf] at hc
    split at hc
    · rw [List.mem_singleton.mp hc]
    · obtain ⟨bytes, _, rfl⟩ := List.mem_map.mp hc
      rfl
  rw [Call.isOf, hheader, getSessionId_at f.addressable f.offset_nonneg f.inside f.data_at]
  simp [Except.toOption]

/-- Calls are put out under their session. -/
theorem isOf_of_mem_outputs {state : Int → List UInt8} {frames : List Frame} {o : Int × Call}
    (ho : o ∈ Keyed.outputs Frame.sessionId take state frames) (sessionId : Int) :
    o.2.isOf sessionId = decide (o.1 = sessionId) := by
  induction frames generalizing state with
  | nil => cases ho
  | cons f frames ih =>
    rw [Keyed.outputs, List.mem_append] at ho
    rcases ho with ho | ho
    · obtain ⟨c, hc, rfl⟩ := List.mem_map.mp ho
      exact isOf_callOf hc sessionId
    · exact ih ho

/-- What both assemblers do with one frame. -/
def Takes (handle : Builders × List Call → Frame → Except Stop (Builders × List Call)) : Prop :=
  ∀ builders calls f, ∃ builders',
    handle (builders, calls) f = .ok (builders', calls ++ (take (held builders f.sessionId) f).2) ∧
      held builders' = Function.update (held builders) f.sessionId (take (held builders f.sessionId) f).1

/-- A feed puts out what the keyed machine does. -/
theorem Takes.foldlM {handle : Builders × List Call → Frame → Except Stop (Builders × List Call)} (h : Takes handle)
    (frames : List Frame) (builders : Builders) (calls : List Call) : ∃ builders',
    frames.foldlM handle (builders, calls) =
      .ok (builders', calls ++ (Keyed.outputs Frame.sessionId take (held builders) frames).map Prod.snd) := by
  induction frames generalizing builders calls with
  | nil => exact ⟨builders, by rw [Keyed.outputs, List.map_nil, List.append_nil]; rfl⟩
  | cons f frames ih =>
    obtain ⟨builders₁, hstep, hheld⟩ := h builders calls f
    obtain ⟨builders₂, hrest⟩ := ih builders₁ (calls ++ (take (held builders f.sessionId) f).2)
    refine ⟨builders₂, ?_⟩
    rw [List.foldlM_cons, hstep, ok_bind, hrest, hheld, Keyed.outputs, List.map_append, List.map_map,
      List.append_assoc]
    congr 4
    exact (List.map_id _).symm

/-! ## Well-formed streams -/

def Piece.slot (p : Piece) : Slot := .data p.flags p.payload

/-- A middle piece or a last one. -/
def Piece.IsLater (p : Piece) : Prop := p.flags &&& unfragmented = 0 ∨ p.flags &&& unfragmented = endFrag

theorem assemble_laters {pieces : List Piece} (h : ∀ p ∈ pieces, p.IsLater) (delivered : List (List UInt8)) :
    assembleAll ([], delivered) (pieces.map Piece.slot) = ([], delivered) := by
  induction pieces with
  | nil => rfl
  | cons p pieces ih =>
    rw [List.map_cons, assembleAll_cons, Piece.slot, assemble_stray (h p List.mem_cons_self)]
    exact ih fun q hq => h q (List.mem_cons_of_mem p hq)

/-- Middle pieces are added to the builder. -/
theorem assemble_middles {middle : List Piece} (h : ∀ p ∈ middle, p.flags &&& unfragmented = 0)
    (hbuilder : builder ≠ []) (delivered : List (List UInt8)) :
    assembleAll (builder, delivered) (middle.map Piece.slot) = (builder ++ bytesOf middle, delivered) := by
  induction middle generalizing builder with
  | nil => rw [bytesOf, List.flatMap_nil, List.append_nil]; rfl
  | cons p middle ih =>
    have hgrown : builder ++ p.payload ≠ [] := fun hnil => hbuilder (List.append_eq_nil_iff.mp hnil).1
    rw [List.map_cons, assembleAll_cons, Piece.slot, assemble_middle (h p List.mem_cons_self) hbuilder,
      ih (fun q hq => h q (List.mem_cons_of_mem p hq)) hgrown, List.append_assoc]
    rfl

/-- **The pieces of a message** deliver it, unless its first piece is empty and others follow. -/
theorem IsMessage.assemble {m : List Piece} (h : IsMessage m) (delivered : List (List UInt8)) :
    assembleAll ([], delivered) (m.map Piece.slot) =
      ([], delivered ++ if isAssembled m then [bytesOf m] else []) := by
  cases h with
  | whole hwhole =>
    rw [List.map_cons, assembleAll_cons, Piece.slot, assemble_unfragmented hwhole]
    simp [isAssembled, bytesOf]
  | @parts first last middle hfirst hmiddle hlast =>
    have hkind : isAssembled (first :: (middle ++ [last])) = decide (first.payload ≠ []) := by cases middle <;> rfl
    rw [List.map_cons, assembleAll_cons, Piece.slot, assemble_begin hfirst, hkind]
    by_cases hempty : first.payload = []
    · have hlater : ∀ p ∈ middle ++ [last], p.IsLater := by
        intro p hp
        rcases List.mem_append.mp hp with hp | hp
        · exact .inl (hmiddle p hp)
        · exact .inr (List.mem_singleton.mp hp ▸ hlast)
      rw [hempty, assemble_laters hlater]
      simp
    · have hgrown : first.payload ++ bytesOf middle ≠ [] := fun hnil => hempty (List.append_eq_nil_iff.mp hnil).1
      rw [List.map_append, assembleAll_append, assemble_middles hmiddle hempty, List.map_singleton, assembleAll_cons,
        Piece.slot, assemble_end hlast hgrown]
      simp [hempty, bytesOf]

/-- What is left of a message without its first piece is dropped. -/
theorem IsMessage.later {missed rest : List Piece} (h : IsMessage (missed ++ rest)) (hmissed : missed ≠ []) :
    ∀ p ∈ rest, p.IsLater := by
  obtain ⟨first, missed, rfl⟩ := List.exists_cons_of_ne_nil hmissed
  generalize hm : first :: missed ++ rest = m at h
  intro p hp
  cases h with
  | whole _ =>
    have hnil := (List.cons.inj hm).2
    rw [(List.append_eq_nil_iff.mp hnil).2] at hp
    cases hp
  | parts _ hmiddle hlast =>
    have htail : missed ++ rest = _ := (List.cons.inj hm).2
    have hmem := List.mem_append_right missed hp
    rw [htail] at hmem
    rcases List.mem_append.mp hmem with hp | hp
    · exact .inl (hmiddle p hp)
    · exact .inr (List.mem_singleton.mp hp ▸ hlast)

theorem begunBehind_zero (stream : List (List Piece)) : begunBehind 0 stream = stream := by
  cases stream with
  | nil => rfl
  | cons m stream => rw [begunBehind, if_pos rfl]

/-- Whole messages, one after the other. -/
theorem assemble_stream (h : ∀ m ∈ stream, IsMessage m) (delivered : List (List UInt8)) :
    assembleAll ([], delivered) (stream.flatten.map Piece.slot) =
      ([], delivered ++ (stream.filter isAssembled).map bytesOf) := by
  induction stream generalizing delivered with
  | nil => simp
  | cons m stream ih =>
    rw [List.flatten_cons, List.map_append, assembleAll_append, (h m List.mem_cons_self).assemble,
      ih fun n hn => h n (List.mem_cons_of_mem m hn), List.filter_cons]
    split <;> simp

/-- What is left of a stream. -/
theorem assemble_left (h : ∀ m ∈ stream, IsMessage m) {missed left : List Piece}
    (hleft : missed ++ left = stream.flatten) (delivered : List (List UInt8)) :
    assembleAll ([], delivered) (left.map Piece.slot) =
      ([], delivered ++ ((begunBehind missed.length stream).filter isAssembled).map bytesOf) := by
  induction stream generalizing missed with
  | nil =>
    rw [(List.append_eq_nil_iff.mp hleft).2]
    simp [begunBehind]
  | cons m stream ih =>
    have hrest : ∀ n ∈ stream, IsMessage n := fun n hn => h n (List.mem_cons_of_mem m hn)
    by_cases hmissed : missed = []
    · subst hmissed
      rw [List.nil_append] at hleft
      rw [hleft, List.length_nil, begunBehind_zero]
      exact assemble_stream h delivered
    · have hskip : missed.length ≠ 0 := mt List.length_eq_zero_iff.mp hmissed
      rw [begunBehind, if_neg hskip]
      rcases List.append_eq_append_iff.mp (hleft.trans List.flatten_cons) with ⟨rest, hm, hflat⟩ | ⟨more, hm, hflat⟩
      · -- the frames begin inside this message
        have hlater := (hm ▸ h m List.mem_cons_self : IsMessage (missed ++ rest)).later hmissed
        rw [hflat, List.map_append, assembleAll_append, assemble_laters hlater, assemble_stream hrest, hm,
          List.length_append, Nat.sub_eq_zero_of_le (Nat.le_add_right _ _), begunBehind_zero]
      · rw [hm, List.length_append, Nat.add_sub_cancel_left]
        exact ih hrest hflat.symm

/-! ## What the delegate reads -/

theorem callOf_message {f : Frame}
    (h : ∀ bytes ∈ completes builder f.slot, (bytes.length : Int) < 2147483648) :
    (callOf builder f).map Call.message = (completes builder f.slot).toList.map Except.ok := by
  by_cases hunfragmented : f.flags &&& unfragmented = unfragmented
  · simp only [callOf, completes, Frame.slot, if_pos hunfragmented, List.map_cons, List.map_nil, Option.toList_some,
      Call.message, payload_at f.addressable f.offset_nonneg f.inside f.data_at]
  · rw [callOf, if_neg hunfragmented]
    cases hc : completes builder f.slot with
    | none => rfl
    | some bytes =>
      have hmade := makeBuffer_writeBytes bytes (h bytes hc)
      simp only [Option.toList_some, List.map_cons, List.map_nil, Call.message, hmade]

theorem mem_assembleAll {message : List UInt8} {a : Assembly} (h : message ∈ a.2) (slots : List Slot) :
    message ∈ (assembleAll a slots).2 := by
  induction slots generalizing a with
  | nil => exact h
  | cons s slots ih => exact ih (List.mem_append_left _ h)

/-- The calls of a session are for what its slots assemble. -/
theorem trace_message {frames : List Frame} {delivered : List (List UInt8)}
    (h : ∀ m ∈ (assembleAll (builder, delivered) (frames.map Frame.slot)).2, (m.length : Int) < 2147483648) :
    delivered.map Except.ok ++ (Keyed.trace take builder frames).map Call.message =
      (assembleAll (builder, delivered) (frames.map Frame.slot)).2.map Except.ok := by
  induction frames generalizing builder delivered with
  | nil => rw [Keyed.trace, List.map_nil, List.append_nil]; rfl
  | cons f frames ih =>
    rw [List.map_cons, assembleAll_cons] at h ⊢
    have hcall : (callOf builder f).map Call.message = (completes builder f.slot).toList.map Except.ok :=
      callOf_message fun bytes hbytes =>
        h bytes (mem_assembleAll (List.mem_append_right _ (Option.mem_toList.mpr hbytes)) _)
    have hrest := ih h
    rw [List.map_append, List.append_assoc] at hrest
    rw [Keyed.trace, List.map_append, take, hcall]
    exact hrest

/-! ## The assemblers -/

theorem mem_of_mem_begunBehind {missed : Nat} {m : List Piece}
    (h : m ∈ begunBehind missed stream) : m ∈ stream := by
  induction stream generalizing missed with
  | nil => exact h
  | cons n stream ih =>
    rw [begunBehind] at h
    split at h
    · exact h
    · exact List.mem_cons_of_mem n (ih h)

section

variable {handle : Builders × List Call → Frame → Except Stop (Builders × List Call)} (h : Takes handle) (sessionId : Int)
  (frames : List Frame)

include h

/-- The calls for a session, in the midst of others and alone. -/
theorem Takes.callsFor : callsFor sessionId (frames.foldlM handle (fun _ => none, [])) =
    .ok (Keyed.trace take [] (frames.filter (·.sessionId = sessionId))) := by
  obtain ⟨builders, hfed⟩ := h.foldlM frames (fun _ => none) []
  rw [hfed, List.nil_append]
  refine congrArg Except.ok ?_
  show ((Keyed.outputs Frame.sessionId take (held fun _ => none) frames).map Prod.snd).filter (Call.isOf sessionId) = _
  have hkey : ∀ o ∈ Keyed.outputs Frame.sessionId take (held fun _ => none) frames,
      o.2.isOf sessionId = decide (o.1 = sessionId) := fun o ho => isOf_of_mem_outputs ho sessionId
  rw [List.filter_map, Function.comp_def, List.filter_congr hkey, Keyed.outputs_filter Frame.sessionId take sessionId, List.map_map]
  exact List.map_id _

theorem Takes.alone : Prod.snd <$> (frames.filter (·.sessionId = sessionId)).foldlM handle (fun _ => none, []) =
    .ok (Keyed.trace take [] (frames.filter (·.sessionId = sessionId))) := by
  obtain ⟨builders, hfed⟩ := h.foldlM (frames.filter (·.sessionId = sessionId)) (fun _ => none) []
  have hown : ∀ f ∈ frames.filter (·.sessionId = sessionId), f.sessionId = sessionId := fun f hf =>
    of_decide_eq_true (List.mem_filter.mp hf).2
  rw [hfed, List.nil_append, Keyed.outputs_of_key Frame.sessionId take hown, List.map_map]
  exact congrArg Except.ok (List.map_id _)

theorem Takes.perSession : PerSession (fun frames => frames.foldlM handle (fun _ => none, [])) sessionId frames := by
  obtain ⟨builders, hfed⟩ := h.foldlM frames (fun _ => none) []
  refine ⟨⟨_, hfed⟩, (h.callsFor sessionId frames).trans (h.alone sessionId frames).symm, ?_⟩
  intro missed stream hstream hleft
  refine ⟨_, h.callsFor sessionId frames, ?_⟩
  have hslots : (frames.filter (·.sessionId = sessionId)).map Frame.slot =
      ((frames.filter (·.sessionId = sessionId)).map Frame.piece).map Piece.slot := by
    rw [List.map_map]
    rfl
  have hassembled := assemble_left hstream.isMessage hleft []
  rw [← hslots, List.nil_append] at hassembled
  have hshort : ∀ m ∈ (assembleAll ([], []) ((frames.filter (·.sessionId = sessionId)).map Frame.slot)).2,
      (m.length : Int) < 2147483648 := by
    rw [hassembled]
    intro m hm
    obtain ⟨n, hn, rfl⟩ := List.mem_map.mp hm
    exact hstream.length_lt n (mem_of_mem_begunBehind (List.mem_filter.mp hn).1)
  have htrace := trace_message hshort
  rw [hassembled, List.map_map] at htrace
  exact htrace

end

/-- **Reassembly is per session**, for both assemblers; a controlled delegate must not abort. -/
theorem reassembly_per_session (sessionId : Int) (frames : List Frame)
    {answer : Int → List Call → Image.ControlledPollAction} (hanswer : ∀ position calls, answer position calls ≠ .abort) :
    PerSession FragmentAssembler.feed sessionId frames ∧
      PerSession (ControlledFragmentAssembler.feed answer) sessionId frames := by
  have htakes : Takes fun st f => FragmentAssembler.onFragment FragmentAssembler.note st f.buffer (f.offset + headerLength)
      f.payload.length f.offset := fun builders calls f => FragmentAssembler.onFragment_take f builders calls
  have hcontrolled : Takes fun st f => Prod.snd <$> ControlledFragmentAssembler.onFragment
      (ControlledFragmentAssembler.note answer) st f.position f.buffer (f.offset + headerLength) f.payload.length f.offset :=
    fun builders calls f => ControlledFragmentAssembler.onFragment_take f builders calls hanswer
  exact ⟨htakes.perSession sessionId frames, hcontrolled.perSession sessionId frames⟩

/-- The bytes of a data frame at offset 0. -/
def frameBytes (sessionId : Int) (flags : UInt8) (payload : List UInt8) : Memory :=
  write (fun _ => 0) 0 (leBytes 4 (payload.length + 32) ++ [0, flags] ++ leBytes 2 typeData ++ leBytes 4 0 ++
    leBytes 4 sessionId ++ List.replicate 16 0 ++ payload)

/-- Session 1 sends a message in two pieces, and session 2 one between them. -/
def twoSessions : List Frame :=
  [⟨⟨frameBytes 1 beginFrag [5], 33⟩, 0, 0, 1, beginFrag, [5], show (33 : Int) ≤ 1073741824 by decide, by decide, by decide,
      ⟨by decide, by decide, by decide, by decide, by decide⟩⟩,
    ⟨⟨frameBytes 2 unfragmented [7], 33⟩, 0, 64, 2, unfragmented, [7], show (33 : Int) ≤ 1073741824 by decide, by decide,
      by decide, ⟨by decide, by decide, by decide, by decide, by decide⟩⟩,
    ⟨⟨frameBytes 1 endFrag [6], 33⟩, 0, 128, 1, endFrag, [6], show (33 : Int) ≤ 1073741824 by decide, by decide, by decide,
      ⟨by decide, by decide, by decide, by decide, by decide⟩⟩]

theorem reassembly_per_session_two : ∃ calls, callsFor 1 (ControlledFragmentAssembler.feed (fun _ _ => .commit)
    twoSessions) = .ok calls ∧ calls.map Call.message = [.ok [5, 6]] := by
  have hstream : WellFormed [[⟨beginFrag, [5]⟩, ⟨endFrag, [6]⟩]] := by
    constructor
    · intro m hm
      rw [List.mem_singleton.mp hm]
      exact @IsMessage.parts ⟨beginFrag, [5]⟩ ⟨endFrag, [6]⟩ [] (by decide) (by decide) (by decide)
    · decide
  have hanswer : ∀ position calls, (fun (_ : Int) (_ : List Call) => Image.ControlledPollAction.commit) position calls ≠
      .abort := fun _ _ => nofun
  exact (reassembly_per_session 1 twoSessions hanswer).2.messages [] _ hstream (by decide)

end AeronGo
