import AeronGo.FragmentAssembler
import AeronGo.Laws.LogBuffer.Reader

/-!
# Laws of the assemblers

What an assembler does with a slot depends only on the slot and on the builder of its session:
`completes` is the message that the slot completes, if it does, and `nextBuilder` what is in the
builder afterwards. Over the slots of a message this gives the message and an empty builder, and over
a part of them nothing (`assemble_messageSlots`, `assemble_proper`).
-/

namespace AeronGo

open Machine Util Atomic LogBuffer

/-! ## Assembling slots -/

/-- The message that a slot completes. -/
def completes (builder : List UInt8) : Slot → Option (List UInt8)
  | .data flags payload =>
    if flags &&& unfragmented = unfragmented then some payload
    else if flags &&& beginFrag = beginFrag then none
    else if builder.length = 0 then none
    else if flags &&& endFrag = endFrag then some (builder ++ payload)
    else none
  | .padding _ => none
  | .pending _ => none

/-- The builder after a slot. -/
def nextBuilder (builder : List UInt8) : Slot → List UInt8
  | .data flags payload =>
    if flags &&& unfragmented = unfragmented then builder
    else if flags &&& beginFrag = beginFrag then payload
    else if builder.length = 0 then builder
    else if flags &&& endFrag = endFrag then []
    else builder ++ payload
  | .padding _ => builder
  | .pending _ => builder

/-- A builder and the messages delivered so far. -/
abbrev Assembly := List UInt8 × List (List UInt8)

def assemble (a : Assembly) (s : Slot) : Assembly := (nextBuilder a.1 s, a.2 ++ (completes a.1 s).toList)

/-- What the slots of a row come to. -/
def assembleAll (a : Assembly) (slots : List Slot) : Assembly := slots.foldl assemble a

@[simp] theorem assembleAll_nil (a : Assembly) : assembleAll a [] = a := rfl

@[simp] theorem assembleAll_cons (a : Assembly) (s : Slot) (slots : List Slot) :
    assembleAll a (s :: slots) = assembleAll (assemble a s) slots := rfl

theorem assembleAll_append (a : Assembly) (xs ys : List Slot) :
    assembleAll a (xs ++ ys) = assembleAll (assembleAll a xs) ys := List.foldl_append

/-- The flags that the assemblers test are in the two bits of an unfragmented frame. -/
theorem and_beginFrag {flags bits : UInt8} (h : flags &&& unfragmented = bits) :
    flags &&& beginFrag = bits &&& beginFrag := by
  rw [← h, UInt8.and_assoc]
  rfl

theorem and_endFrag {flags bits : UInt8} (h : flags &&& unfragmented = bits) : flags &&& endFrag = bits &&& endFrag := by
  rw [← h, UInt8.and_assoc]
  rfl

section Flags

variable {flags : UInt8}

theorem assemble_unfragmented (h : flags &&& unfragmented = unfragmented) (a : Assembly) (payload : List UInt8) :
    assemble a (.data flags payload) = (a.1, a.2 ++ [payload]) := by
  simp only [assemble, nextBuilder, completes, if_pos h]
  rfl

theorem assemble_begin (h : flags &&& unfragmented = beginFrag) (a : Assembly) (payload : List UInt8) :
    assemble a (.data flags payload) = (payload, a.2) := by
  simp only [assemble, nextBuilder, completes, and_beginFrag h, h]
  rw [if_neg (by decide), if_pos (by decide), if_neg (by decide), if_pos (by decide)]
  simp

theorem assemble_middle (h : flags &&& unfragmented = 0) {builder : List UInt8} (hbuilder : builder ≠ [])
    (delivered : List (List UInt8)) (payload : List UInt8) :
    assemble (builder, delivered) (.data flags payload) = (builder ++ payload, delivered) := by
  have hlength : builder.length ≠ 0 := mt List.length_eq_zero_iff.mp hbuilder
  simp only [assemble, nextBuilder, completes, and_beginFrag h, and_endFrag h, h]
  rw [if_neg (by decide), if_neg (by decide), if_neg hlength, if_neg (by decide), if_neg (by decide),
    if_neg (by decide), if_neg hlength, if_neg (by decide)]
  simp

theorem assemble_end (h : flags &&& unfragmented = endFrag) {builder : List UInt8} (hbuilder : builder ≠ [])
    (delivered : List (List UInt8)) (payload : List UInt8) :
    assemble (builder, delivered) (.data flags payload) = ([], delivered ++ [builder ++ payload]) := by
  have hlength : builder.length ≠ 0 := mt List.length_eq_zero_iff.mp hbuilder
  simp only [assemble, nextBuilder, completes, and_beginFrag h, and_endFrag h, h]
  rw [if_neg (by decide), if_neg (by decide), if_neg hlength, if_pos (by decide), if_neg (by decide),
    if_neg (by decide), if_neg hlength, if_pos (by decide)]
  rfl

/-- Without a first piece in the builder the others are dropped. -/
theorem assemble_stray (h : flags &&& unfragmented = 0 ∨ flags &&& unfragmented = endFrag)
    (delivered : List (List UInt8)) (payload : List UInt8) :
    assemble ([], delivered) (.data flags payload) = ([], delivered) := by
  have hwhole : flags &&& unfragmented ≠ unfragmented := by rcases h with h | h <;> rw [h] <;> decide
  have hbegin : flags &&& beginFrag ≠ beginFrag := by
    rcases h with h | h <;> rw [and_beginFrag h] <;> decide
  simp only [assemble, nextBuilder, completes, if_neg hwhole, if_neg hbegin, List.length_nil, ↓reduceIte]
  simp

end Flags

/-! ## The slots of a message -/

/-- A single slot has no proper part but the empty one. -/
theorem eq_nil_of_singleton_eq_append {s : Slot} {xs ys : List Slot} (h : [s] = xs ++ ys) (hys : ys ≠ []) :
    xs = [] := by
  cases xs with
  | nil => rfl
  | cons x xs =>
    have hnil : [] = xs ++ ys := (List.cons.inj h).2
    exact absurd (List.append_eq_nil_iff.mp hnil.symm).2 hys

section Message

variable {maxPayload : Int} (hm : 0 < maxPayload)

include hm

/-- The fragments behind the first one complete the builder with what remains. -/
theorem assemble_rest :
    ∀ (fuel : Nat) (rest builder : List UInt8) (delivered : List (List UInt8)), rest.length ≤ fuel → rest ≠ [] →
      builder ≠ [] →
      assembleAll (builder, delivered) (fragmentSlots maxPayload fuel 0 rest) = ([], delivered ++ [builder ++ rest]) ∧
      ∀ xs ys, fragmentSlots maxPayload fuel 0 rest = xs ++ ys → ys ≠ [] →
        (assembleAll (builder, delivered) xs).2 = delivered := by
  intro fuel
  induction fuel with
  | zero =>
    intro rest builder delivered hfuel hrest _
    exact absurd (List.length_eq_zero_iff.mp (Nat.le_zero.mp hfuel)) hrest
  | succ fuel ih =>
    intro rest builder delivered hfuel hrest hbuilder
    have hpos : 0 < rest.length := List.length_pos_iff.mpr hrest
    rw [fragmentSlots, if_pos hpos]
    by_cases hlast : (rest.length : Int) ≤ maxPayload
    · rw [if_pos hlast]
      refine ⟨assemble_end (by decide) hbuilder delivered rest, ?_⟩
      intro xs ys hsplit hys
      rw [eq_nil_of_singleton_eq_append hsplit hys]
      rfl
    · rw [if_neg hlast]
      have htake : rest.take maxPayload.toNat ++ rest.drop maxPayload.toNat = rest := List.take_append_drop _ _
      have hdrop : rest.drop maxPayload.toNat ≠ [] := by
        intro hnil
        have := congrArg List.length hnil
        rw [List.length_drop, List.length_nil] at this
        omega
      have hlength : (rest.drop maxPayload.toNat).length ≤ fuel := by
        rw [List.length_drop]
        omega
      have hgrown : builder ++ rest.take maxPayload.toNat ≠ [] :=
        fun hnil => hbuilder (List.append_eq_nil_iff.mp hnil).1
      obtain ⟨hall, hpart⟩ := ih (rest.drop maxPayload.toNat) (builder ++ rest.take maxPayload.toNat) delivered hlength
        hdrop hgrown
      constructor
      · rw [assembleAll_cons, assemble_middle (by decide) hbuilder, hall, List.append_assoc, htake]
      · intro xs ys hsplit hys
        cases xs with
        | nil => rfl
        | cons x xs =>
          obtain ⟨rfl, hrest'⟩ := List.cons.inj hsplit
          rw [assembleAll_cons, assemble_middle (by decide) hbuilder]
          exact hpart xs ys hrest' hys

/-- **The slots of a message deliver exactly it.** -/
theorem assemble_messageSlots (message : List UInt8) (delivered : List (List UInt8)) :
    assembleAll ([], delivered) (messageSlots maxPayload message) = ([], delivered ++ [message]) ∧
      ∀ xs ys, messageSlots maxPayload message = xs ++ ys → ys ≠ [] →
        (assembleAll ([], delivered) xs).2 = delivered := by
  unfold messageSlots
  by_cases hsingle : (message.length : Int) ≤ maxPayload
  · rw [if_pos hsingle]
    refine ⟨rfl, ?_⟩
    intro xs ys hsplit hys
    rw [eq_nil_of_singleton_eq_append hsplit hys]
    rfl
  · rw [if_neg hsingle]
    obtain ⟨fuel, hfuel⟩ : ∃ fuel, message.length = fuel + 1 := ⟨message.length - 1, by omega⟩
    have htake : message.take maxPayload.toNat ++ message.drop maxPayload.toNat = message := List.take_append_drop _ _
    have hfirst : message.take maxPayload.toNat ≠ [] := by
      intro hnil
      have := congrArg List.length hnil
      rw [List.length_take, List.length_nil] at this
      omega
    have hdrop : message.drop maxPayload.toNat ≠ [] := by
      intro hnil
      have := congrArg List.length hnil
      rw [List.length_drop, List.length_nil] at this
      omega
    have hlength : (message.drop maxPayload.toNat).length ≤ fuel := by
      rw [List.length_drop]
      omega
    obtain ⟨hall, hpart⟩ := assemble_rest hm fuel (message.drop maxPayload.toNat) (message.take maxPayload.toNat)
      delivered hlength hdrop hfirst
    have hslots : fragmentSlots maxPayload message.length beginFrag message =
        .data beginFrag (message.take maxPayload.toNat) ::
          fragmentSlots maxPayload fuel 0 (message.drop maxPayload.toNat) := by
      rw [hfuel, fragmentSlots, if_pos (by omega), if_neg hsingle]
    rw [hslots]
    constructor
    · rw [assembleAll_cons, assemble_begin (by decide), hall, htake]
    · intro xs ys hsplit hys
      cases xs with
      | nil => rfl
      | cons x xs =>
        obtain ⟨rfl, hrest⟩ := List.cons.inj hsplit
        rw [assembleAll_cons, assemble_begin (by decide)]
        exact hpart xs ys hrest hys

end Message

/-! ## The assemblers on a slot -/

/-- The delegate that keeps the messages it is given. -/
def record : FragmentAssembler.Delegate (List (List UInt8)) := fun delivered buffer offset length _ => do
  let message ← buffer.writeBytes offset length
  return delivered ++ [message]

/-- The bytes of a buffer made from a builder. -/
theorem makeBuffer_writeBytes (bytes : List UInt8) (h : (bytes.length : Int) < 2147483648) :
    (makeBuffer bytes).writeBytes 0 (i32 bytes.length) = .ok bytes := by
  have hword : i32 bytes.length = bytes.length := i32_eq ⟨by omega, h⟩
  have hcheck : boundsCheck 0 (i32 bytes.length) (makeBuffer bytes).length = .ok () := by
    rw [boundsCheck, makeBuffer, Int.zero_add, hword, hword, if_neg (Int.lt_irrefl _)]
  rw [Buffer.writeBytes, hcheck, ok_bind, hword, if_neg (Int.not_lt.mpr (Int.natCast_nonneg _)), Int.toNat_natCast]
  exact congrArg Except.ok (read_write_self _ _ _)

/-- What the builders hold. -/
def held (builders : Builders) : Int → List UInt8 := fun sessionId => (builders sessionId).getD []

theorem held_set (builders : Builders) (sessionId : Int) (builder : List UInt8) :
    held (builders.set sessionId builder) = Function.update (held builders) sessionId builder := by
  funext j
  by_cases hj : j = sessionId
  · rw [hj, Function.update_self, held, Builders.set, if_pos rfl, Option.getD_some]
  · rw [Function.update_of_ne hj, held, Builders.set, if_neg hj, held]

theorem held_unchanged {builders : Builders} {sessionId : Int} {builder : List UInt8}
    (h : held builders sessionId = builder) : held builders = Function.update (held builders) sessionId builder := by
  rw [← h, Function.update_eq_self]

/-- The builders behind an answer. -/
theorem held_answered {builders kept changed : Builders} {sessionId : Int} {x y : List UInt8}
    (hkept : held kept = Function.update (held builders) sessionId x)
    (hchanged : held changed = Function.update (held builders) sessionId y) (action : Image.ControlledPollAction) :
    held (if action = .abort then kept else changed) =
      Function.update (held builders) sessionId (if action = .abort then x else y) := by
  split
  · exact hkept
  · exact hchanged

/-- Where the delegate finds the message that a fragment completes: an unfragmented one where it lies, any other in
a buffer of its own. -/
def handedOn (buf : Buffer) (offset : Int) (builder : List UInt8) (flags : UInt8) (payload : List UInt8) :
    Option (Buffer × Int × Int) :=
  if flags &&& unfragmented = unfragmented then some (buf, offset + headerLength, payload.length)
  else (completes builder (.data flags payload)).map fun bytes => (makeBuffer bytes, 0, i32 bytes.length)

theorem length_nextBuilder (builder : List UInt8) (flags : UInt8) (payload : List UInt8) :
    ((nextBuilder builder (.data flags payload)).length : Int) ≤ builder.length + payload.length := by
  rw [nextBuilder]
  split
  · omega
  split
  · omega
  split
  · omega
  split
  · rw [List.length_nil]
    omega
  · rw [List.length_append]
    push_cast
    exact Int.le_refl _

theorem length_completes {builder payload message : List UInt8} {flags : UInt8}
    (h : completes builder (.data flags payload) = some message) :
    (message.length : Int) ≤ builder.length + payload.length := by
  rw [completes] at h
  split at h
  · obtain rfl := Option.some.inj h
    omega
  split at h
  · cases h
  split at h
  · cases h
  split at h
  · obtain rfl := Option.some.inj h
    rw [List.length_append]
    push_cast
    exact Int.le_refl _
  · cases h

section Slot

variable {δ : Type} {buf : Buffer} {sessionId offset : Int} {flags : UInt8} {payload : List UInt8} (hs : Addressable buf)
  (lo : 0 ≤ offset) (hin : offset + (payload.length + 32) ≤ buf.length)
  (hat : (Slot.data flags payload).At sessionId buf.bytes offset)

include hs lo hin hat

theorem getFlags_at : getFlags buf offset = .ok flags := by
  have hsmall : buf.length ≤ 1073741824 := hs
  rw [getFlags, i32_eq (by omega), Buffer.getUInt8_ok hs (by omega) (by omega), hat.2.2.1]

theorem getSessionId_at : getSessionId buf offset = .ok sessionId := by
  have hsmall : buf.length ≤ 1073741824 := hs
  rw [getSessionId, i32_eq (by omega), Buffer.getInt32_ok hs (by omega) (by omega), hat.2.2.2.1]

theorem payload_at : buf.writeBytes (offset + headerLength) payload.length = .ok payload := by
  rw [headerLength, Buffer.writeBytes_ok hs (by omega) (Int.natCast_nonneg _) (by omega), Int.toNat_natCast,
    hat.2.2.2.2]

/-- **`OnFragment` on a fragment**: the delegate is called with what is handed on, and the builder of the session
changes as `nextBuilder` says. -/
theorem FragmentAssembler.onFragment_eq (delegate : FragmentAssembler.Delegate δ) (builders : Builders) (d : δ) :
    ∃ builders', held builders' = Function.update (held builders) sessionId
        (nextBuilder (held builders sessionId) (.data flags payload)) ∧
      onFragment delegate (builders, d) buf (offset + headerLength) payload.length offset =
        match handedOn buf offset (held builders sessionId) flags payload with
        | none => .ok (builders', d)
        | some (b, o, l) => delegate d b o l ⟨buf, offset⟩ >>= fun d => .ok (builders', d) := by
  have hflags := getFlags_at hs lo hin hat
  have hsession := getSessionId_at hs lo hin hat
  have hpayload := payload_at hs lo hin hat
  simp only [onFragment, hflags, hsession, hpayload, ok_bind, handedOn, completes, nextBuilder]
  by_cases hunfragmented : flags &&& unfragmented = unfragmented
  · simp only [if_pos hunfragmented]
    exact ⟨builders, held_unchanged rfl, rfl⟩
  simp only [if_neg hunfragmented]
  by_cases hbegin : flags &&& beginFrag = beginFrag
  · simp only [if_pos hbegin]
    exact ⟨_, held_set _ _ _, rfl⟩
  simp only [if_neg hbegin]
  cases hb : builders sessionId with
  | none =>
    have hempty : held builders sessionId = [] := by rw [held, hb, Option.getD_none]
    simp only [hempty, List.length_nil, ↓reduceIte]
    exact ⟨builders, held_unchanged hempty, rfl⟩
  | some builder =>
    have hheld : held builders sessionId = builder := by rw [held, hb, Option.getD_some]
    simp only [hheld]
    by_cases hempty : builder.length = 0
    · simp only [if_pos hempty]
      exact ⟨builders, held_unchanged hheld, rfl⟩
    simp only [if_neg hempty]
    by_cases hend : flags &&& endFrag = endFrag
    · simp only [if_pos hend]
      exact ⟨_, held_set _ _ _, rfl⟩
    · simp only [if_neg hend]
      exact ⟨_, held_set _ _ _, rfl⟩

/-- The controlled one: where the delegate aborts, the builder stays as it was. -/
theorem ControlledFragmentAssembler.onFragment_eq (delegate : ControlledFragmentAssembler.Delegate δ)
    (builders : Builders) (seen : Int) (d : δ) :
    ∃ next : Image.ControlledPollAction → Builders, (∀ action, held (next action) =
        Function.update (held builders) sessionId (if action = .abort then held builders sessionId
          else nextBuilder (held builders sessionId) (.data flags payload))) ∧
      onFragment delegate (builders, d) seen buf (offset + headerLength) payload.length offset =
        match handedOn buf offset (held builders sessionId) flags payload with
        | none => .ok (.continue, next .continue, d)
        | some (b, o, l) => delegate d seen b o l ⟨buf, offset⟩ >>= fun r => .ok (r.1, next r.1, r.2) := by
  have hflags := getFlags_at hs lo hin hat
  have hsession := getSessionId_at hs lo hin hat
  have hpayload := payload_at hs lo hin hat
  simp only [onFragment, hflags, hsession, hpayload, ok_bind, handedOn, completes, nextBuilder]
  by_cases hunfragmented : flags &&& unfragmented = unfragmented
  · simp only [if_pos hunfragmented, ite_self]
    exact ⟨fun _ => builders, fun _ => held_unchanged rfl, rfl⟩
  simp only [if_neg hunfragmented]
  by_cases hbegin : flags &&& beginFrag = beginFrag
  · simp only [if_pos hbegin]
    exact ⟨fun action => if action = .abort then builders else builders.set sessionId payload,
      held_answered (held_unchanged rfl) (held_set _ _ _), rfl⟩
  simp only [if_neg hbegin]
  cases hb : builders sessionId with
  | none =>
    have hempty : held builders sessionId = [] := by rw [held, hb, Option.getD_none]
    simp only [hempty, List.length_nil, ↓reduceIte, ite_self]
    exact ⟨fun _ => builders, fun _ => held_unchanged hempty, rfl⟩
  | some builder =>
    have hheld : held builders sessionId = builder := by rw [held, hb, Option.getD_some]
    simp only [hheld]
    by_cases hempty : builder.length = 0
    · simp only [if_pos hempty, ite_self]
      exact ⟨fun _ => builders, fun _ => held_unchanged hheld, rfl⟩
    simp only [if_neg hempty]
    by_cases hend : flags &&& endFrag = endFrag
    · simp only [if_pos hend, List.take_left]
      refine ⟨fun action => if action = .abort then builders.set sessionId builder else builders.set sessionId [],
        held_answered (held_set _ _ _) (held_set _ _ _), ?_⟩
      congr 1
      funext r
      by_cases habort : r.1 = .abort
      · simp only [if_pos habort]
        rfl
      · simp only [if_neg habort]
        rfl
    · simp only [if_neg hend]
      exact ⟨fun action => if action = .abort then builders else builders.set sessionId (builder ++ payload),
        held_answered (held_unchanged hheld) (held_set _ _ _), rfl⟩

/-- What is handed on reads as the message that the fragment completes. -/
theorem handedOn_cases (builder : List UInt8) (hbuilder : (builder.length : Int) + payload.length < 2147483648) :
    (handedOn buf offset builder flags payload = none ∧ completes builder (.data flags payload) = none) ∨
    ∃ b o l message, handedOn buf offset builder flags payload = some (b, o, l) ∧
      completes builder (.data flags payload) = some message ∧ b.writeBytes o l = .ok message := by
  by_cases hunfragmented : flags &&& unfragmented = unfragmented
  · exact .inr ⟨buf, _, _, payload, by rw [handedOn, if_pos hunfragmented], by rw [completes, if_pos hunfragmented],
      payload_at hs lo hin hat⟩
  · rw [handedOn, if_neg hunfragmented]
    cases hc : completes builder (.data flags payload) with
    | none => exact .inl ⟨rfl, rfl⟩
    | some message =>
      exact .inr ⟨_, _, _, message, rfl, rfl, makeBuffer_writeBytes message
        (Int.lt_of_le_of_lt (length_completes hc) hbuilder)⟩

/-- **`OnFragment` assembles**: the builder of the session and the delivered messages are those of
`assemble`. -/
theorem FragmentAssembler.onFragment_at (builders : Builders) (delivered : List (List UInt8))
    (hbuilder : (((builders sessionId).getD []).length : Int) + payload.length ≤ 1073741824) :
    ∃ builders' delivered', onFragment record (builders, delivered) buf (offset + headerLength) payload.length offset =
        .ok (builders', delivered') ∧
      ((builders' sessionId).getD [], delivered') =
        assemble ((builders sessionId).getD [], delivered) (.data flags payload) := by
  obtain ⟨builders', hheld, heq⟩ := FragmentAssembler.onFragment_eq hs lo hin hat record builders delivered
  have hbuilder' : held builders' sessionId = nextBuilder (held builders sessionId) (.data flags payload) := by
    rw [hheld, Function.update_self]
  rw [heq]
  change ∃ builders'' delivered', _ ∧ (held builders'' sessionId, delivered') =
    assemble (held builders sessionId, delivered) (.data flags payload)
  rcases handedOn_cases hs lo hin hat (held builders sessionId) (Int.lt_of_le_of_lt hbuilder (by decide)) with
    ⟨hnone, hc⟩ | ⟨b, o, l, message, hsome, hc, hread⟩
  · refine ⟨builders', delivered, by rw [hnone], ?_⟩
    rw [assemble, hc, hbuilder', Option.toList_none, List.append_nil]
  · refine ⟨builders', delivered ++ [message], by simp only [hsome, record, hread, ok_bind]; rfl, ?_⟩
    rw [assemble, hc, hbuilder', Option.toList_some]

end Slot

end AeronGo
