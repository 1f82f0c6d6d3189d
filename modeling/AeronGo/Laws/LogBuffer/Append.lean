import AeronGo.Laws.LogBuffer.Appender

/-!
# What an append comes to

The skeleton of the append functions over their stores: where the claimed length fits the term, the
row of slots is there and the tail has moved over it (`append_fits`); where it does not, the rest of
the term is one padding slot (`append_ends`). `Appends` collects what the publication needs to know of
an append function, and every one of them has it.
-/

namespace AeronGo.LogBuffer

open Machine Util Atomic

variable {α : Type}

/-- What the end-of-log condition leaves in the term. -/
def endSlots (termLength offset : Int) : List Slot :=
  if offset < termLength then [.padding (termLength - offset)] else []

theorem handleEndOfLogCondition_ok (header : HeaderWriter) (hsession : I32 header.sessionID) (termID : Int)
    {b : Buffer} {offset : Int} (hs : Addressable b) (lo : 0 ≤ offset) (ha : offset % 32 = 0)
    (hb : b.length % 32 = 0) :
    ∃ m, handleEndOfLogCondition termID b offset header b.length = .ok (endOfLogResult b.length offset, ⟨m, b.length⟩) ∧
      TermRow header.sessionID (i32 termID) m (min offset b.length) (endSlots b.length offset) b.length ∧
      AgreeOutside (min offset b.length) b.length b.bytes m := by
  have hsmall : b.length ≤ 1073741824 := hs
  have hs' : ∀ m, Addressable ⟨m, b.length⟩ := fun _ => hs
  unfold handleEndOfLogCondition endOfLogResult endSlots
  by_cases hlt : offset < b.length
  · have hframe := header.bytes_frame b.bytes offset termID hsession (b.length - offset) (by omega) (by omega)
    have hpad := (hframe.setType typePad rfl).setLength (b.length - offset)
      ⟨by omega, by omega⟩
    have hword : i32 (b.length - offset) = b.length - offset := i32_eq (by omega)
    simp only [if_pos hlt, if_pos (Int.le_of_lt hlt), hword, Int.min_eq_left (Int.le_of_lt hlt)]
    rw [header.write_ok termID hs lo (by omega) (by omega) (by omega), ok_bind,
      setFrameType_ok (hs' _) lo (by simp only; omega), ok_bind,
      setFrameLength_ok (hs' _) lo (by simp only; omega), ok_bind]
    refine ⟨_, rfl, ⟨⟨⟨by omega, hpad.length_eq, hpad.type_eq⟩, ?_⟩, hpad.termId_eq, trivial⟩, ?_⟩
    · show offset + (b.length - offset + 31) / 32 * 32 = b.length
      omega
    · have hheader := header.bytes_agree b.bytes offset (b.length - offset) termID
      refine (hheader.mono (by omega)).trans (AgreeOutside.trans
        ((AgreeOutside.put 2 _ _ _).mono (by omega)) ((AgreeOutside.put 4 _ _ _).mono ⟨Int.le_refl _, ?_⟩))
      omega
  · rw [if_neg hlt, if_neg hlt, Int.min_eq_right (by omega)]
    refine ⟨b.bytes, ?_, ⟨rfl, trivial⟩, .refl _ _ _⟩
    split
    next => rfl
    next => rfl

/-! ## The skeleton -/

/-- An appender at an offset of a term: the tail carries the term id and the offset. -/
structure AppenderAt (a : Appender) (termId offset : Int) : Prop where
  addressable : Addressable a.termBuffer
  length_aligned : a.termBuffer.length % 32 = 0
  session : I32 a.headerWriter.sessionID
  tail_eq : a.rawTail = rawTail termId offset
  termId_range : I32 termId
  offset_nonneg : 0 ≤ offset
  offset_lt : offset < 2147483648
  offset_aligned : offset % 32 = 0

/-- The appender after a get-and-add, with new bytes in its term. -/
def Appender.moved (a : Appender) (m : Memory) (termId offset : Int) : Appender :=
  { a with termBuffer := ⟨m, a.termBuffer.length⟩, rawTail := LogBuffer.rawTail termId offset }

section Skeleton

variable {a : Appender} {termId offset required : Int} (h : AppenderAt a termId offset) (lo : 0 < required)
  (hi : required < 2147483648)

include h lo hi

/-- What the skeleton reads off its tail, and the tail after the get-and-add. -/
theorem AppenderAt.tail : termID a.rawTail = termId ∧ tailOffset a.rawTail = offset ∧
    i64 (a.rawTail + required) = rawTail termId (offset + required) ∧
    i64 (offset + required) = offset + required ∧ i32 offset = offset := by
  have hoff := h.offset_nonneg
  have hlt := h.offset_lt
  have htail := h.tail_eq
  have hid := termID_rawTail h.termId_range hoff (by omega)
  have hofs := tailOffset_rawTail termId hoff (by omega)
  rw [← htail] at hid hofs
  have hrange := rawTail_range h.termId_range hoff (show offset < 4294967296 by omega)
  rw [← htail] at hrange
  have hadd := rawTail_add hrange (show 0 ≤ required by omega) (by rw [hofs]; omega)
  rw [hid, hofs] at hadd
  exact ⟨hid, hofs, hadd, i64_eq (by omega), i32_eq (by omega)⟩

/-- **The required length fits**: the slots are laid, and the tail has moved over them. -/
theorem append_fits {slots : List Slot} {x : Int → α} {store : Buffer → Int → Int → Except Stop (Buffer × α)}
    (hstore : Stores a.headerWriter.sessionID required slots x store)
    (hfits : offset + required ≤ a.termBuffer.length) :
    ∃ m, a.append required store =
        .ok ⟨a.moved m termId (offset + required), offset + required, termId, some (x offset)⟩ ∧
      TermRow a.headerWriter.sessionID termId m offset slots (offset + required) ∧
      AgreeOutside offset (offset + required) a.termBuffer.bytes m := by
  obtain ⟨hid, hofs, hadd, hsum, hword⟩ := h.tail lo hi
  obtain ⟨m, hm, hrow, hagree⟩ := hstore a.termBuffer offset termId h.addressable h.offset_nonneg hfits
  rw [i32_of_I32 h.termId_range] at hrow
  refine ⟨m, ?_, hrow, hagree⟩
  simp only [Appender.append, hid, hofs, hadd, hsum, hword, if_neg (Int.not_lt.mpr hfits), hm]
  rfl

/-- **The required length does not fit**: the rest of the term is padding, and the tail has moved past
the end. -/
theorem append_ends (store : Buffer → Int → Int → Except Stop (Buffer × α))
    (hends : a.termBuffer.length < offset + required) :
    ∃ m, a.append required store =
        .ok ⟨a.moved m termId (offset + required), endOfLogResult a.termBuffer.length offset, termId, none⟩ ∧
      TermRow a.headerWriter.sessionID termId m (min offset a.termBuffer.length) (endSlots a.termBuffer.length offset)
        a.termBuffer.length ∧
      AgreeOutside (min offset a.termBuffer.length) a.termBuffer.length a.termBuffer.bytes m := by
  obtain ⟨hid, hofs, hadd, hsum, hword⟩ := h.tail lo hi
  obtain ⟨m, hm, hrow, hagree⟩ := handleEndOfLogCondition_ok a.headerWriter h.session termId h.addressable
    h.offset_nonneg h.offset_aligned h.length_aligned
  rw [i32_of_I32 h.termId_range] at hrow
  refine ⟨m, ?_, hrow, hagree⟩
  simp only [Appender.append, hid, hofs, hadd, hsum, hword, if_pos hends, hm]
  rfl

end Skeleton

/-! ## The append functions -/

/-- The frame of a message that is not fragmented, and the space it takes. Nothing stops a negative
length. -/
theorem frameLength_eq {length : Int} (lo : -2147483648 ≤ length) (hi : length ≤ 2147483584) :
    i32 (length + headerLength) = length + 32 ∧ alignInt32 (length + 32) frameAlignment = (length + 63) / 32 * 32 := by
  constructor
  · exact i32_eq (by unfold headerLength; omega)
  · rw [frameAlignment, alignInt32_eq (by omega) (by omega)]
    omega

section SingleFrame

variable (a : Appender) {length : Int} (lo : -2147483648 ≤ length) (hi : length ≤ 2147483584)

include lo hi

theorem claim_eq :
    a.claim length = a.append ((length + 63) / 32 * 32) (Appender.storeClaim a.headerWriter (length + 32)) := by
  obtain ⟨hframe, halign⟩ := frameLength_eq lo hi
  simp only [Appender.claim, hframe, halign]

theorem appendUnfragmentedMessage_eq (src : Buffer) (srcOffset : Int) (supplier : Option ReservedValueSupplier) :
    a.appendUnfragmentedMessage src srcOffset length supplier =
      a.append ((length + 63) / 32 * 32)
        (Appender.storeMessage a.headerWriter (length + 32) src srcOffset length supplier) := by
  obtain ⟨hframe, halign⟩ := frameLength_eq lo hi
  simp only [Appender.appendUnfragmentedMessage, hframe, halign]

theorem appendUnfragmentedMessage2_eq (src : TwoParts) (hlength : src.lengthOne + src.lengthTwo = length)
    (supplier : Option ReservedValueSupplier) :
    a.appendUnfragmentedMessage2 src supplier =
      a.append ((length + 63) / 32 * 32) (Appender.storeMessage2 a.headerWriter (length + 32) src supplier) := by
  obtain ⟨hframe, halign⟩ := frameLength_eq lo hi
  have hsum : i32 length = length := i32_eq (by omega)
  simp only [Appender.appendUnfragmentedMessage2, hlength, hsum, hframe, halign]

end SingleFrame

/-- An append function claims a length and stores a row of slots there. -/
def Appends (sessionId required : Int) (slots : List Slot) (x : Int → α)
    (run : Appender → Except Stop (Appended α)) : Prop :=
  ∀ a : Appender, a.headerWriter.sessionID = sessionId →
    ∃ store, run a = a.append required store ∧ Stores sessionId required slots x store

section Functions

variable {sessionId : Int} (hsession : I32 sessionId)

include hsession

theorem claim_appends {length : Int} (lo : 0 ≤ length) (hi : length ≤ 2147483584) :
    Appends sessionId ((length + 63) / 32 * 32) [.pending (length + 32)] (fun offset => (offset, length + 32))
      (Appender.claim · length) := by
  intro a ha
  refine ⟨_, claim_eq a (by omega) hi, ?_⟩
  rw [← ha]
  exact storeClaim_stores a.headerWriter (by rw [ha]; exact hsession) lo

theorem appendUnfragmentedMessage_appends {src : Buffer} {srcOffset length : Int}
    (hsrc : Source src srcOffset length) (hi : length ≤ 2147483584) (supplier : Option ReservedValueSupplier) :
    Appends sessionId ((length + 63) / 32 * 32) [.data unfragmented (sourceBytes src srcOffset length)]
      (fun _ => ()) (Appender.appendUnfragmentedMessage · src srcOffset length supplier) := by
  intro a ha
  have lo := hsrc.length_nonneg
  refine ⟨_, appendUnfragmentedMessage_eq a (by omega) hi src srcOffset supplier, ?_⟩
  rw [← ha]
  exact storeMessage_stores a.headerWriter (by rw [ha]; exact hsession) hsrc supplier

theorem appendUnfragmentedMessage2_appends {src : TwoParts} (hsrc : TwoSources src)
    (hi : src.lengthOne + src.lengthTwo ≤ 2147483584) (supplier : Option ReservedValueSupplier) :
    Appends sessionId ((src.lengthOne + src.lengthTwo + 63) / 32 * 32) [.data unfragmented (twoBytes src)]
      (fun _ => ()) (Appender.appendUnfragmentedMessage2 · src supplier) := by
  intro a ha
  have lo := Int.add_nonneg hsrc.one.length_nonneg hsrc.two.length_nonneg
  refine ⟨_, appendUnfragmentedMessage2_eq a (by omega) hi src rfl supplier, ?_⟩
  rw [← ha]
  exact storeMessage2_stores a.headerWriter (by rw [ha]; exact hsession) hsrc supplier

variable {maxPayload : Int} (hm : 32 ≤ maxPayload) (halign : maxPayload % 32 = 0) (hmax : maxPayload < 2147483616)

include hm halign hmax

theorem appendFragmentedMessage_appends {src : Buffer} {srcOffset length : Int} (hsrc : Source src srcOffset length)
    (hi : length ≤ 1073741000) (supplier : ReservedValueSupplier) :
    Appends sessionId (messageSpace maxPayload length)
      (fragmentSlots maxPayload length.toNat beginFrag (sourceBytes src srcOffset length)) (fun _ => ())
      (Appender.appendFragmentedMessage · src srcOffset length maxPayload supplier) := by
  intro a ha
  have lo := hsrc.length_nonneg
  have hlength := hsrc.length_bytes
  have hnat : (sourceBytes src srcOffset length).length = length.toNat := by omega
  have hstores := storeFragments_stores a.headerWriter (by rw [ha]; exact hsession) supplier (copyOne_copies hsrc) hm
    halign (by omega) () trivial
  rw [hlength, hnat, ha] at hstores
  refine ⟨_, ?_, hstores⟩
  simp only [Appender.appendFragmentedMessage, fragmentedLength_eq hm hmax lo hi]

theorem appendFragmentedMessage2_appends {src : TwoParts} (hsrc : TwoSources src)
    (hi : src.lengthOne + src.lengthTwo ≤ 1073741000) (supplier : ReservedValueSupplier) :
    Appends sessionId (messageSpace maxPayload (src.lengthOne + src.lengthTwo))
      (fragmentSlots maxPayload (src.lengthOne + src.lengthTwo).toNat beginFrag (twoBytes src)) (fun _ => ())
      (Appender.appendFragmentedMessage2 · src maxPayload supplier) := by
  intro a ha
  have hone := hsrc.one.length_nonneg
  have htwo := hsrc.two.length_nonneg
  have hlength := hsrc.length_bytes
  have hnat : (twoBytes src).length = (src.lengthOne + src.lengthTwo).toNat := by omega
  have hsum : i32 (src.lengthOne + src.lengthTwo) = src.lengthOne + src.lengthTwo := i32_eq (by omega)
  have hplace : TwoPlaces src 0 (0, 0) := by
    unfold TwoPlaces
    rw [Int.min_eq_left hone]
    rfl
  have hstores := storeFragments_stores a.headerWriter (by rw [ha]; exact hsession) supplier (copyTwo_copies hsrc) hm
    halign (by omega) _ hplace
  rw [hlength, hnat, ha] at hstores
  refine ⟨_, ?_, hstores⟩
  simp only [Appender.appendFragmentedMessage2, hsum, fragmentedLength_eq hm hmax (Int.add_nonneg hone htwo) hi]

end Functions

end AeronGo.LogBuffer
