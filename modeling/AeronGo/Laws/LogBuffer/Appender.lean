import AeronGo.LogBuffer.Appender
import AeronGo.Laws.Atomic.Buffer
import AeronGo.Laws.LogBuffer.Frames
import AeronGo.Laws.LogBuffer.Slot

/-!
# Laws of the appender

`Stores` says what the stores of an append function have to achieve at the offset they are given: a
row of slots that takes up exactly the claimed length, and nothing changed outside of it. Each of the
five functions does (`claim_stores`, `unfragmented_stores`, …), and from that the skeleton's three
outcomes follow once (`append_fits`, `append_ends`).
-/

namespace AeronGo.LogBuffer

open Machine Util Atomic

/-! ## Header fields -/

/-- The header fields of a frame that a reader looks at. -/
structure Frame (m : Memory) (offset length : Int) (flags : UInt8) (type sessionId termId : Int) : Prop where
  length_eq : getInt32 m offset = length
  flags_eq : getUInt8 m (offset + 5) = flags
  type_eq : getUInt16 m (offset + 6) = type
  session_eq : getInt32 m (offset + 12) = sessionId
  termId_eq : getInt32 m (offset + 20) = termId

namespace Frame

variable {m m' : Memory} {offset length type sessionId termId : Int} {flags : UInt8}

theorem congr (h : Frame m offset length flags type sessionId termId)
    (hsame : ∀ i, offset ≤ i → i < offset + 24 → m' i = m i) : Frame m' offset length flags type sessionId termId where
  length_eq := (getInt32_congr fun i lo hi => hsame i lo (by omega)).trans h.length_eq
  flags_eq := (hsame _ (by omega) (by omega)).trans h.flags_eq
  type_eq := (getUInt16_congr fun i lo hi => hsame i (by omega) (by omega)).trans h.type_eq
  session_eq := (getInt32_congr fun i lo hi => hsame i (by omega) (by omega)).trans h.session_eq
  termId_eq := (getInt32_congr fun i lo hi => hsame i (by omega) (by omega)).trans h.termId_eq

theorem setLength (h : Frame m offset length flags type sessionId termId) (value : Int) (hv : I32 value) :
    Frame (put 4 m offset value) offset value flags type sessionId termId where
  length_eq := (getInt32_put _ _ _).trans (i32_of_I32 hv)
  flags_eq := .trans (put_of_outside (by omega)) h.flags_eq
  type_eq := (getUInt16_put_of_outside (by omega)).trans h.type_eq
  session_eq := (getInt32_put_of_outside (by omega)).trans h.session_eq
  termId_eq := (getInt32_put_of_outside (by omega)).trans h.termId_eq

theorem setFlags (h : Frame m offset length flags type sessionId termId) (value : UInt8) :
    Frame (putUInt8 m (offset + 5) value) offset length value type sessionId termId where
  length_eq := (getInt32_putUInt8_of_outside (by omega)).trans h.length_eq
  flags_eq := getUInt8_putUInt8 _ _ _
  type_eq := (getUInt16_congr fun i lo hi => putUInt8_of_outside (by omega)).trans h.type_eq
  session_eq := (getInt32_putUInt8_of_outside (by omega)).trans h.session_eq
  termId_eq := (getInt32_putUInt8_of_outside (by omega)).trans h.termId_eq

theorem setType (h : Frame m offset length flags type sessionId termId) (value : Int) (hv : value % 65536 = value) :
    Frame (put 2 m (offset + 6) value) offset length flags value sessionId termId where
  length_eq := (getInt32_put_of_outside (by omega)).trans h.length_eq
  flags_eq := .trans (put_of_outside (by omega)) h.flags_eq
  type_eq := (getUInt16_put _ _ _).trans hv
  session_eq := (getInt32_put_of_outside (by omega)).trans h.session_eq
  termId_eq := (getInt32_put_of_outside (by omega)).trans h.termId_eq

end Frame

section Fields

variable {b : Buffer} {offset : Int} (hs : Addressable b) (lo : 0 ≤ offset)

include hs lo

theorem setFrameLength_ok (h : offset + 32 ≤ b.length) (value : Int) :
    setFrameLength b offset value = .ok ⟨put 4 b.bytes offset value, b.length⟩ :=
  Buffer.putInt32_ok hs lo (by omega) value

theorem setFrameType_ok (h : offset + 32 ≤ b.length) (value : Int) :
    setFrameType b offset value = .ok ⟨put 2 b.bytes (offset + 6) value, b.length⟩ := by
  have hsmall : b.length ≤ 1073741824 := hs
  rw [setFrameType, i32_eq (by omega), Buffer.putUInt16_ok hs (by omega) (by omega)]

theorem frameFlags_ok (h : offset + 32 ≤ b.length) (value : UInt8) :
    frameFlags b offset value = .ok ⟨putUInt8 b.bytes (offset + 5) value, b.length⟩ := by
  have hsmall : b.length ≤ 1073741824 := hs
  rw [frameFlags, i32_eq (by omega), Buffer.putUInt8_ok hs (by omega) (by omega)]

theorem putReservedValue_ok (h : offset + 32 ≤ b.length) (value : Int) :
    putReservedValue b offset value = .ok ⟨put 8 b.bytes (offset + 24) value, b.length⟩ := by
  have hsmall : b.length ≤ 1073741824 := hs
  rw [putReservedValue, i32_eq (by omega), Buffer.putInt64_ok hs (by omega) (by omega)]

end Fields

namespace HeaderWriter

variable (header : HeaderWriter) (m : Memory) (offset length termID : Int)

/-- The bytes of a header, over a memory. -/
def bytes : Memory :=
  let m := put 4 m offset (-length)
  let m := putUInt8 m (offset + 4) 0
  let m := putUInt8 m (offset + 5) unfragmented
  let m := put 2 m (offset + 6) typeData
  let m := put 4 m (offset + 8) offset
  let m := put 4 m (offset + 12) header.sessionID
  let m := put 4 m (offset + 16) header.streamID
  put 4 m (offset + 20) termID

/-- A header touches 24 bytes. -/
theorem bytes_agree : AgreeOutside offset (offset + 24) m (header.bytes m offset length termID) := by
  intro i hi
  simp (disch := omega) only [bytes, put_of_outside, putUInt8_of_outside]

/-- A header has a negative length, and the fields of an unfragmented data frame. -/
theorem bytes_frame (hsession : I32 header.sessionID) (length : Int) (llo : 0 ≤ length)
    (lhi : length ≤ 1073741824) :
    Frame (header.bytes m offset length termID) offset (-length) unfragmented typeData header.sessionID (i32 termID) := by
  have hneg : i32 (-length) = -length := i32_eq (by omega)
  -- after its own store, a field sees only stores elsewhere
  unfold bytes
  constructor
  · simp (disch := omega) only [getInt32_put_of_outside, getInt32_putUInt8_of_outside, getInt32_put, hneg]
  · unfold getUInt8
    simp (disch := omega) only [put_of_outside]
    exact getUInt8_putUInt8 _ _ _
  · simp (disch := omega) only [getUInt16_put_of_outside, getUInt16_put]
    rfl
  · simp (disch := omega) only [getInt32_put_of_outside, getInt32_put, i32_of_I32 hsession]
  · exact getInt32_put _ _ _

theorem write_ok {b : Buffer} {offset : Int} (hs : Addressable b) (lo : 0 ≤ offset) (h : offset + 32 ≤ b.length)
    {length : Int} (llo : -2147483647 ≤ length) (lhi : length ≤ 1073741824) :
    header.write b offset length termID = .ok ⟨header.bytes b.bytes offset length termID, b.length⟩ := by
  have hsmall : b.length ≤ 1073741824 := hs
  simp (disch := omega) only [HeaderWriter.write, i32_eq]
  have hs' : ∀ m, Addressable ⟨m, b.length⟩ := fun _ => hs
  rw [Buffer.putInt32_ok hs lo (by omega), ok_bind, Buffer.putUInt8_ok (hs' _) (by omega) (by simp only; omega),
    ok_bind, Buffer.putUInt8_ok (hs' _) (by omega) (by simp only; omega), ok_bind,
    Buffer.putUInt16_ok (hs' _) (by omega) (by simp only; omega), ok_bind,
    Buffer.putInt32_ok (hs' _) (by omega) (by simp only; omega), ok_bind,
    Buffer.putInt32_ok (hs' _) (by omega) (by simp only; omega), ok_bind,
    Buffer.putInt32_ok (hs' _) (by omega) (by simp only; omega), ok_bind,
    Buffer.putInt32_ok (hs' _) (by omega) (by simp only; omega)]
  rfl

end HeaderWriter

/-! ## From a draft to a slot -/

/-- A frame whose payload is in place and whose length is still negative. -/
structure Draft (sessionId termId : Int) (m : Memory) (offset : Int) (flags : UInt8) (payload : List UInt8) : Prop where
  frame : Frame m offset (-(payload.length + 32)) flags typeData sessionId termId
  payload_eq : Machine.read m (offset + 32) payload.length = payload

namespace Draft

variable {sessionId termId : Int} {m : Memory} {offset : Int} {flags : UInt8} {payload : List UInt8}

/-- The payload is copied behind the header. -/
theorem copy {n : Int} (h : Frame m offset (-(n + 32)) flags typeData sessionId termId)
    (hn : (payload.length : Int) = n) :
    Draft sessionId termId (write m (offset + 32) payload) offset flags payload where
  frame := by
    rw [hn]
    exact h.congr fun i _ _ => write_of_outside (by omega)
  payload_eq := read_write_self _ _ _

theorem setReserved (h : Draft sessionId termId m offset flags payload) (value : Int) :
    Draft sessionId termId (put 8 m (offset + 24) value) offset flags payload where
  frame := h.frame.congr fun i _ _ => put_of_outside (by omega)
  payload_eq := (read_put_of_disjoint (by omega)).trans h.payload_eq

theorem setFlags (h : Draft sessionId termId m offset flags payload) (value : UInt8) :
    Draft sessionId termId (putUInt8 m (offset + 5) value) offset value payload where
  frame := h.frame.setFlags value
  payload_eq := ((AgreeOutside.putUInt8 m (offset + 5) value).read (by omega)).trans h.payload_eq

/-- The length commits the frame. -/
theorem commit (h : Draft sessionId termId m offset flags payload) (hlen : (payload.length : Int) ≤ 1073741824) :
    (Slot.data flags payload).At sessionId (put 4 m offset (payload.length + 32)) offset ∧
      getInt32 (put 4 m offset (payload.length + 32)) (offset + 20) = termId := by
  have hframe := h.frame.setLength (payload.length + 32) ⟨by omega, by omega⟩
  exact ⟨⟨hframe.length_eq, hframe.type_eq, hframe.flags_eq, hframe.session_eq,
    (read_put_of_disjoint (by omega)).trans h.payload_eq⟩, hframe.termId_eq⟩

end Draft

/-! ## Stores -/

variable {α : Type}

/-- A row of slots of one term: laid, and stamped with the term's id. -/
structure TermRow (sessionId termId : Int) (m : Memory) (a : Int) (slots : List Slot) (b : Int) : Prop where
  laid : Laid sessionId m a slots b
  stamped : Stamped (fun _ => termId) m a slots

/-- The stores of an append function achieve a row of slots of the required length, at every offset
that has room for it, and change nothing else. -/
def Stores (sessionId required : Int) (slots : List Slot) (x : Int → α)
    (store : Buffer → Int → Int → Except Stop (Buffer × α)) : Prop :=
  ∀ (b : Buffer) (offset termID : Int), Addressable b → 0 ≤ offset → offset + required ≤ b.length →
    ∃ m, store b offset termID = .ok (⟨m, b.length⟩, x offset) ∧
      TermRow sessionId (i32 termID) m offset slots (offset + required) ∧
      AgreeOutside offset (offset + required) b.bytes m

/-- The space of one frame. -/
theorem space_data (flags : UInt8) (payload : List UInt8) :
    (Slot.data flags payload).space = ((payload.length : Int) + 63) / 32 * 32 := by
  show ((payload.length : Int) + 32 + 31) / 32 * 32 = _
  omega

variable {length offset sessionId termId srcOffset : Int} {b : Buffer} {payload : List UInt8}

/-- `Claim` leaves an uncommitted frame. -/
theorem storeClaim_stores (header : HeaderWriter) (hsession : I32 header.sessionID)
    (lo : 0 ≤ length) :
    Stores header.sessionID ((length + 63) / 32 * 32) [.pending (length + 32)]
      (fun offset => (offset, length + 32)) (Appender.storeClaim header (length + 32)) := by
  intro b offset termID hs hlo hin
  have hsmall : b.length ≤ 1073741824 := hs
  have hframe := header.bytes_frame b.bytes offset termID hsession (length + 32) (by omega) (by omega)
  refine ⟨header.bytes b.bytes offset (length + 32) termID, ?_, ⟨⟨?_, ?_⟩, hframe.termId_eq, trivial⟩, ?_⟩
  · rw [Appender.storeClaim, header.write_ok termID hs hlo (by omega) (by omega) (by omega), ok_bind,
      boundsCheck_ok hlo (by omega) (by omega) hs.lt]
    rfl
  · exact ⟨by omega, hframe.length_eq, hframe.type_eq, hframe.flags_eq, hframe.session_eq⟩
  · show offset + (length + 32 + 31) / 32 * 32 = _
    omega
  · exact (header.bytes_agree b.bytes offset (length + 32) termID).mono (by omega)

/-- A supplied reserved value is stored in the header, a missing one is not. -/
theorem supplyReserved_ok (hs : Addressable b) (lo : 0 ≤ offset)
    (h : offset + 32 ≤ b.length) (frameLength : Int) (supplier : Option ReservedValueSupplier)
    {flags : UInt8}
    (hd : Draft sessionId termId b.bytes offset flags payload) :
    ∃ m, Appender.supplyReserved b offset frameLength supplier = .ok ⟨m, b.length⟩ ∧
      Draft sessionId termId m offset flags payload ∧ AgreeOutside offset (offset + 32) b.bytes m := by
  cases supplier with
  | none => exact ⟨b.bytes, rfl, hd, .refl _ _ _⟩
  | some supplier =>
    refine ⟨_, putReservedValue_ok hs lo h _, hd.setReserved _, ?_⟩
    exact (AgreeOutside.put 8 b.bytes (offset + 24) _).mono (by omega)

/-- Header and payload are put, then the frame is ended. -/
def storePayload (header : HeaderWriter) (payload : List UInt8) (supplier : Option ReservedValueSupplier) (b : Buffer)
    (offset termID : Int) : Except Stop (Buffer × Unit) := do
  let b ← Appender.supplyReserved
    ⟨write (header.bytes b.bytes offset (payload.length + 32) termID) (offset + 32) payload, b.length⟩ offset
    (payload.length + 32) supplier
  let b ← setFrameLength b offset (payload.length + 32)
  return (b, ())

/-- A store that puts a payload behind the header and then ends the frame leaves one data slot. -/
theorem singleFrame_stores (header : HeaderWriter) (hsession : I32 header.sessionID) (payload : List UInt8)
    (supplier : Option ReservedValueSupplier) (store : Buffer → Int → Int → Except Stop (Buffer × Unit))
    (hstore : ∀ (b : Buffer) (offset termID : Int), Addressable b → 0 ≤ offset →
      offset + (payload.length + 32) ≤ b.length →
      store b offset termID = storePayload header payload supplier b offset termID) :
    Stores header.sessionID (((payload.length : Int) + 63) / 32 * 32) [.data unfragmented payload] (fun _ => ())
      store := by
  intro b offset termID hs hlo hin
  have hsmall : b.length ≤ 1073741824 := hs
  have hframe := header.bytes_frame b.bytes offset termID hsession (payload.length + 32) (by omega)
    (by omega)
  have hs' : ∀ m, Addressable ⟨m, b.length⟩ := fun _ => hs
  obtain ⟨m, hm, hdraft, hagree⟩ := supplyReserved_ok
    (b := ⟨write (header.bytes b.bytes offset (payload.length + 32) termID) (offset + 32) payload, b.length⟩)
    (hs' _) hlo (by simp only; omega) (payload.length + 32) supplier (Draft.copy hframe rfl)
  obtain ⟨hat, hid⟩ := hdraft.commit (by omega)
  refine ⟨_, ?_, ⟨⟨hat, ?_⟩, hid, trivial⟩, ?_⟩
  · rw [hstore b offset termID hs hlo (by omega), storePayload, hm, ok_bind,
      setFrameLength_ok (hs' m) hlo (by simp only; omega)]
    rfl
  · show offset + (Slot.data unfragmented _).space = _
    rw [space_data]
  · refine ((header.bytes_agree b.bytes offset (payload.length + 32) termID).mono (by omega)).trans
      (AgreeOutside.trans ?_ ((hagree.mono (by omega)).trans ((AgreeOutside.put 4 m offset _).mono (by omega))))
    exact (AgreeOutside.write _ (offset + 32) payload).mono (by omega)

theorem Source.length_bytes (h : Source b offset length) :
    ((sourceBytes b offset length).length : Int) = length := by
  have hlo := h.length_nonneg
  rw [sourceBytes, length_read]
  omega

/-- `AppendUnfragmentedMessage` puts the bytes of its source. -/
theorem storeMessage_eq (header : HeaderWriter) {src : Buffer}
    (hsrc : Source src srcOffset length) (supplier : Option ReservedValueSupplier)
    (termID : Int) (hs : Addressable b) (hlo : 0 ≤ offset) (hin : offset + (length + 32) ≤ b.length) :
    Appender.storeMessage header (length + 32) src srcOffset length supplier b offset termID =
      storePayload header (sourceBytes src srcOffset length) supplier b offset termID := by
  have hsmall : b.length ≤ 1073741824 := hs
  have hlen := hsrc.length_nonneg
  have hs' : ∀ m, Addressable ⟨m, b.length⟩ := fun _ => hs
  rw [Appender.storeMessage, header.write_ok termID hs hlo (by omega) (by omega) (by omega), ok_bind, headerLength,
    i32_eq (by omega), Buffer.putBytes_ok (hs' _) hsrc.length_lt (by omega) (by simp only; omega)
    hsrc.offset_nonneg hsrc.inside hlen, ok_bind, storePayload, hsrc.length_bytes]
  rfl

theorem storeMessage_stores (header : HeaderWriter) (hsession : I32 header.sessionID) {src : Buffer}
    (hsrc : Source src srcOffset length) (supplier : Option ReservedValueSupplier) :
    Stores header.sessionID ((length + 63) / 32 * 32) [.data unfragmented (sourceBytes src srcOffset length)]
      (fun _ => ()) (Appender.storeMessage header (length + 32) src srcOffset length supplier) := by
  have h := singleFrame_stores header hsession (sourceBytes src srcOffset length) supplier
    (Appender.storeMessage header (length + 32) src srcOffset length supplier) ?_
  · rwa [hsrc.length_bytes] at h
  intro b offset termID hs hlo hin
  rw [hsrc.length_bytes] at hin
  exact storeMessage_eq header hsrc supplier termID hs hlo hin

variable {maxPayload : Int} {src : TwoParts}

theorem TwoSources.length_bytes (h : TwoSources src) :
    ((twoBytes src).length : Int) = src.lengthOne + src.lengthTwo := by
  have hone := h.one.length_bytes
  have htwo := h.two.length_bytes
  rw [twoBytes, List.length_append]
  omega

/-- `AppendUnfragmentedMessage2` puts the bytes of both parts. -/
theorem storeMessage2_eq (header : HeaderWriter) (hsrc : TwoSources src)
    (supplier : Option ReservedValueSupplier) (termID : Int) (hs : Addressable b)
    (hlo : 0 ≤ offset) (hin : offset + (src.lengthOne + src.lengthTwo + 32) ≤ b.length) :
    Appender.storeMessage2 header (src.lengthOne + src.lengthTwo + 32) src supplier b offset termID =
      storePayload header (twoBytes src) supplier b offset termID := by
  have hsmall : b.length ≤ 1073741824 := hs
  have hone := hsrc.one.length_nonneg
  have htwo := hsrc.two.length_nonneg
  have hs' : ∀ m, Addressable ⟨m, b.length⟩ := fun _ => hs
  have hwrite : ∀ m : Memory, write (write m (offset + 32)
      (Machine.read src.bufferOne.bytes src.offsetOne src.lengthOne.toNat)) (offset + 32 + src.lengthOne)
      (Machine.read src.bufferTwo.bytes src.offsetTwo src.lengthTwo.toNat) =
      write m (offset + 32) (twoBytes src) := by
    intro m
    rw [twoBytes, write_append, hsrc.one.length_bytes]
    rfl
  simp only [Appender.storeMessage2]
  rw [header.write_ok termID hs hlo (by omega) (by omega) (by omega), ok_bind, headerLength,
    i32_eq (by omega), Buffer.putBytes_ok (hs' _) hsrc.one.length_lt (by omega) (by simp only; omega)
    hsrc.one.offset_nonneg hsrc.one.inside hone, ok_bind, i32_eq (by omega),
    Buffer.putBytes_ok (hs' _) hsrc.two.length_lt (by omega) (by simp only; omega) hsrc.two.offset_nonneg
    hsrc.two.inside htwo, ok_bind, storePayload, hsrc.length_bytes]
  simp only [hwrite]

theorem storeMessage2_stores (header : HeaderWriter) (hsession : I32 header.sessionID)
    (hsrc : TwoSources src) (supplier : Option ReservedValueSupplier) :
    Stores header.sessionID ((src.lengthOne + src.lengthTwo + 63) / 32 * 32) [.data unfragmented (twoBytes src)]
      (fun _ => ())
      (Appender.storeMessage2 header (src.lengthOne + src.lengthTwo + 32) src supplier) := by
  have h := singleFrame_stores header hsession (twoBytes src) supplier
    (Appender.storeMessage2 header (src.lengthOne + src.lengthTwo + 32) src supplier) ?_
  · rwa [hsrc.length_bytes] at h
  intro b offset termID hs hlo hin
  rw [hsrc.length_bytes] at hin
  exact storeMessage2_eq header hsrc supplier termID hs hlo hin

/-! ## Fragments -/

@[simp] theorem fragmentSlots_nil (maxPayload : Int) (fuel : Nat) (flags : UInt8) :
    fragmentSlots maxPayload fuel flags [] = [] := by
  cases fuel <;> rfl

/-- The first fragment takes as much as a payload holds, the others the rest. -/
theorem fragmentSlots_cons (maxPayload : Int) (fuel : Nat) (flags : UInt8) {message : List UInt8}
    (h : 0 < message.length) :
    fragmentSlots maxPayload (fuel + 1) flags message =
      .data (if message.length ≤ maxPayload then flags ||| endFrag else flags)
        (message.take (min (message.length : Int) maxPayload).toNat) ::
      fragmentSlots maxPayload fuel 0 (message.drop (min (message.length : Int) maxPayload).toNat) := by
  rw [fragmentSlots, if_pos h]
  by_cases hlast : (message.length : Int) ≤ maxPayload
  · rw [if_pos hlast, if_pos hlast, Int.min_eq_left hlast, Int.toNat_natCast, List.take_length, List.drop_length,
      fragmentSlots_nil]
  · rw [if_neg hlast, if_neg hlast, Int.min_eq_right (by omega)]

/-- What the end of a round stores. -/
def commitBytes (supplier : ReservedValueSupplier) (b : Buffer) (f : Fragment) : Memory :=
  let m := putUInt8 b.bytes (f.offset + 5) f.flags
  put 4 (put 8 m (f.offset + 24) (supplier ⟨m, b.length⟩ f.offset (f.bytesToWrite + 32))) f.offset (f.bytesToWrite + 32)

/-- What a round of the fragment loop stores: header, payload and commit. -/
def fragmentBytes (header : HeaderWriter) (termID : Int) (supplier : ReservedValueSupplier) (message : List UInt8)
    (length : Int) (m : Memory) (f : Fragment) : Memory :=
  commitBytes supplier ⟨write (header.bytes m f.offset (f.bytesToWrite + 32) termID) (f.offset + 32)
    ((message.drop f.position.toNat).take f.bytesToWrite.toNat), length⟩ f

/-- The end of a round of the fragment loop. -/
theorem commitFragment_ok {f : Fragment} (hs : Addressable b) (lo : 0 ≤ f.offset)
    (supplier : ReservedValueSupplier) {flags : UInt8}
    (hlength : (payload.length : Int) = f.bytesToWrite) (h : f.offset + (payload.length + 32) ≤ b.length)
    (hd : Draft sessionId termId b.bytes f.offset flags payload) :
    Appender.commitFragment b f supplier = .ok ⟨commitBytes supplier b f, b.length⟩ ∧
      ((Slot.data f.flags payload).At sessionId (commitBytes supplier b f) f.offset ∧
        getInt32 (commitBytes supplier b f) (f.offset + 20) = termId) ∧
      AgreeOutside f.offset (f.offset + 32) b.bytes (commitBytes supplier b f) := by
  have hsmall : b.length ≤ 1073741824 := hs
  have hs' : ∀ m, Addressable ⟨m, b.length⟩ := fun _ => hs
  have hframe : i32 (payload.length + headerLength) = payload.length + 32 := by
    unfold headerLength
    exact i32_eq (by omega)
  simp only [Appender.commitFragment, commitBytes, ← hlength, hframe]
  rw [frameFlags_ok hs lo (by omega), ok_bind, putReservedValue_ok (hs' _) lo (by simp only; omega), ok_bind,
    setFrameLength_ok (hs' _) lo (by simp only; omega)]
  refine ⟨rfl, ((hd.setFlags f.flags).setReserved _).commit (by omega), ?_⟩
  exact ((AgreeOutside.putUInt8 _ _ _).mono (by omega)).trans (((AgreeOutside.put 8 _ _ _).mono (by omega)).trans
    ((AgreeOutside.put 4 _ _ _).mono (by omega)))

/-- A copy puts the fragment's part of the message behind its header. `P` says where in the source the
copy stands. -/
def Copies {τ : Type} (message : List UInt8) (P : Int → τ → Prop)
    (copy : Buffer → Fragment → τ → Except Stop (Buffer × τ)) : Prop :=
  ∀ (b : Buffer) (f : Fragment) (place : τ), Addressable b → 0 ≤ f.offset → 0 < f.bytesToWrite →
    f.offset + 32 + f.bytesToWrite ≤ b.length → 0 ≤ f.position →
    f.position + f.bytesToWrite ≤ message.length → P f.position place →
    ∃ place', copy b f place = .ok (⟨write b.bytes (f.offset + 32)
        ((message.drop f.position.toNat).take f.bytesToWrite.toNat), b.length⟩, place') ∧
      P (f.position + f.bytesToWrite) place'

section Fragments

variable {τ : Type} (header : HeaderWriter) (hsession : I32 header.sessionID) (supplier : ReservedValueSupplier)
  {copy : Buffer → Fragment → τ → Except Stop (Buffer × τ)} {P : Int → τ → Prop} {message : List UInt8}
  (hcopy : Copies message P copy)

include hsession hcopy

/-- One round: header, payload and commit leave the fragment's slot. -/
theorem writeFragment_ok (termID : Int) {b : Buffer} {f : Fragment} {place : τ} (hs : Addressable b)
    (lo : 0 ≤ f.offset) (hbytes : 0 < f.bytesToWrite) (hin : f.offset + 32 + f.bytesToWrite ≤ b.length)
    (hpos : 0 ≤ f.position) (hend : f.position + f.bytesToWrite ≤ message.length) (hp : P f.position place)
    (rest : List Fragment) :
    ∃ m place', m = fragmentBytes header termID supplier message b.length b.bytes f ∧
      Appender.writeFragments header termID supplier copy (f :: rest) b place =
        Appender.writeFragments header termID supplier copy rest ⟨m, b.length⟩ place' ∧
      P (f.position + f.bytesToWrite) place' ∧
      ((Slot.data f.flags ((message.drop f.position.toNat).take f.bytesToWrite.toNat)).At header.sessionID m f.offset ∧
        getInt32 m (f.offset + 20) = i32 termID) ∧
      AgreeOutside f.offset (f.offset + 32 + f.bytesToWrite) b.bytes m := by
  have hsmall : b.length ≤ 1073741824 := hs
  have hs' : ∀ m, Addressable ⟨m, b.length⟩ := fun _ => hs
  have hlength : (((message.drop f.position.toNat).take f.bytesToWrite.toNat).length : Int) = f.bytesToWrite := by
    rw [List.length_take, List.length_drop]
    omega
  have hframe : i32 (f.bytesToWrite + headerLength) = f.bytesToWrite + 32 := i32_eq (by unfold headerLength; omega)
  have hheader := header.bytes_frame b.bytes f.offset termID hsession (f.bytesToWrite + 32) (by omega)
    (by omega)
  obtain ⟨place', hcopied, hp'⟩ := hcopy
    ⟨header.bytes b.bytes f.offset (f.bytesToWrite + 32) termID, b.length⟩ f place (hs' _) lo hbytes hin hpos hend hp
  obtain ⟨hm, hat, hagree⟩ := commitFragment_ok (hs' (write (header.bytes b.bytes f.offset (f.bytesToWrite + 32)
    termID) (f.offset + 32) ((message.drop f.position.toNat).take f.bytesToWrite.toNat))) lo supplier hlength
    (by rw [hlength]; simp only; omega) (Draft.copy hheader hlength)
  refine ⟨_, place', rfl, ?_, hp', hat, ?_⟩
  · rw [Appender.writeFragments, hframe, header.write_ok termID hs lo (by omega) (by omega) (by omega), ok_bind,
      hcopied, ok_bind]
    dsimp only
    rw [hm, ok_bind]
    rfl
  · have hagree' := header.bytes_agree b.bytes f.offset (f.bytesToWrite + 32) termID
    refine (hagree'.mono (by omega)).trans (AgreeOutside.trans ?_ (hagree.mono (by omega)))
    exact (AgreeOutside.write _ (f.offset + 32) _).mono (by omega)

/-- The loop lays the fragments of what remains of the message, one behind the other. -/
theorem writeFragments_ok (termID : Int) (hm : 32 ≤ maxPayload) (ha : maxPayload % 32 = 0)
    (hlen : (message.length : Int) ≤ 1073741824) :
    ∀ (fuel : Nat) (remaining offset : Int) (flags : UInt8) (b : Buffer) (place : τ), 0 ≤ remaining →
      remaining ≤ fuel → remaining ≤ message.length → Addressable b → 0 ≤ offset →
      offset + messageSpace maxPayload remaining ≤ b.length → P (message.length - remaining) place →
      ∃ m place', m = (fragmentLoop message.length maxPayload fuel remaining offset flags).foldl
          (fragmentBytes header termID supplier message b.length) b.bytes ∧
        Appender.writeFragments header termID supplier copy
          (fragmentLoop message.length maxPayload fuel remaining offset flags) b place =
            .ok (⟨m, b.length⟩, place') ∧
        TermRow header.sessionID (i32 termID) m offset
          (fragmentSlots maxPayload fuel flags (message.drop (message.length - remaining).toNat))
          (offset + messageSpace maxPayload remaining) ∧
        AgreeOutside offset (offset + messageSpace maxPayload remaining) b.bytes m := by
  intro fuel
  induction fuel with
  | zero =>
    intro remaining offset flags b place lo hfuel _ _ _ _ _
    have hzero : remaining = 0 := by omega
    have hspace : messageSpace maxPayload 0 = 0 := by simp [messageSpace]
    subst hzero
    rw [hspace, Int.add_zero]
    exact ⟨b.bytes, place, rfl, rfl, ⟨rfl, trivial⟩, .refl _ _ _⟩
  | succ fuel ih =>
    intro remaining offset flags b place lo hfuel hle hs hoff hend hp
    have hsmall : b.length ≤ 1073741824 := hs
    have hsuffix : ((message.drop (message.length - remaining).toNat).length : Int) = remaining := by
      rw [List.length_drop]
      omega
    by_cases hpos : 0 < remaining
    · -- the round's bytes, and what is left after it
      have hstep := messageSpace_step hm ha hpos
      have hn : 0 < min remaining maxPayload ∧ min remaining maxPayload ≤ remaining := by omega
      have hcut := fragmentSlots_cons maxPayload fuel flags
        (show 0 < (message.drop (message.length - remaining).toNat).length by omega)
      rw [hsuffix, List.drop_drop] at hcut
      have hposition : i32 (message.length - remaining) = message.length - remaining :=
        i32_eq (by omega)
      have hrest := messageSpace_bounds hm (show 0 ≤ remaining - min remaining maxPayload by omega)
      rw [hcut, fragmentLoop, if_pos hpos]
      simp only
      generalize hnn : min remaining maxPayload = n at hstep hn hrest ⊢
      rw [alignedFrameLength_eq (by omega) (by omega), i32_eq (x := remaining - n) (by omega),
        i32_eq (x := offset + (n + 63) / 32 * 32) (by omega), hposition]
      obtain ⟨m, place', hbytes, hround, hp', ⟨hat, hid⟩, hagree⟩ := writeFragment_ok header hsession supplier hcopy termID
        (f := ⟨offset, n, if remaining ≤ maxPayload then flags ||| endFrag else flags, message.length - remaining⟩)
        hs hoff hn.1 (show offset + 32 + n ≤ b.length by omega) (show 0 ≤ (message.length : Int) - remaining by omega)
        (show (message.length : Int) - remaining + n ≤ message.length by omega) hp
        (fragmentLoop message.length maxPayload fuel (remaining - n) (offset + (n + 63) / 32 * 32) 0)
      have hnext : (message.length : Int) - (remaining - n) = message.length - remaining + n := by omega
      obtain ⟨m', place'', hfold, hloop, hrow, hagree'⟩ := ih (remaining - n) (offset + (n + 63) / 32 * 32) 0 ⟨m, b.length⟩
        place' (by omega) (by omega) (by omega) hs (by omega) (by simp only; omega) (by rw [hnext]; exact hp')
      have hdrop : (message.length - remaining).toNat + n.toNat = (message.length - (remaining - n)).toNat := by
        omega
      have hspace : (Slot.data (if remaining ≤ maxPayload then flags ||| endFrag else flags)
          ((message.drop (message.length - remaining).toNat).take n.toNat)).space = (n + 63) / 32 * 32 := by
        have hlength : ((message.drop (message.length - remaining).toNat).take n.toNat).length = n.toNat := by
          rw [List.length_take]
          omega
        rw [space_data, hlength, Int.toNat_of_nonneg (by omega)]
      have hsum : offset + messageSpace maxPayload remaining =
          offset + (n + 63) / 32 * 32 + messageSpace maxPayload (remaining - n) := by omega
      rw [hdrop, hsum]
      refine ⟨m', place'', ?_, hround.trans hloop, ⟨⟨?_, ?_⟩, ?_, ?_⟩, ?_⟩
      · rw [hfold, hbytes, List.foldl_cons]
      · refine hat.congr ?_
        intro i _ hi
        rw [hspace] at hi
        exact hagree' i (.inl hi)
      · rw [hspace]
        exact hrow.laid
      · exact (hagree'.getInt32 (by omega)).trans hid
      · rw [hspace]
        exact hrow.stamped
      · refine (hagree.mono ⟨Int.le_refl _, ?_⟩).trans
          (hagree'.mono ⟨show offset ≤ offset + (n + 63) / 32 * 32 by omega, Int.le_refl _⟩)
        show offset + 32 + n ≤ _
        omega
    · have hzero : remaining = 0 := by omega
      have hspace : messageSpace maxPayload 0 = 0 := by simp [messageSpace]
      have hnil : message.drop ((message.length : Int) - 0).toNat = [] := by
        rw [Int.sub_zero, Int.toNat_natCast, List.drop_length]
      subst hzero
      rw [hspace, Int.add_zero, hnil, fragmentSlots_nil, fragmentLoop, if_neg hpos]
      exact ⟨b.bytes, place, rfl, rfl, ⟨rfl, trivial⟩, .refl _ _ _⟩

/-- A fragmented message leaves its fragments. What is stored depends on the message, not on how it is
copied. -/
theorem storeFragments_ok (hm : 32 ≤ maxPayload) (ha : maxPayload % 32 = 0)
    (hlen : (message.length : Int) ≤ 1073741824) (place : τ) (hp : P 0 place) {b : Buffer} {offset : Int} (termID : Int)
    (hs : Addressable b) (hlo : 0 ≤ offset) (hin : offset + messageSpace maxPayload message.length ≤ b.length) :
    ∃ m, m = (fragments message.length maxPayload offset).foldl
        (fragmentBytes header termID supplier message b.length) b.bytes ∧
      Appender.storeFragments header message.length maxPayload supplier copy place b offset termID =
        .ok (⟨m, b.length⟩, ()) ∧
      TermRow header.sessionID (i32 termID) m offset (fragmentSlots maxPayload message.length beginFrag message)
        (offset + messageSpace maxPayload message.length) ∧
      AgreeOutside offset (offset + messageSpace maxPayload message.length) b.bytes m := by
  obtain ⟨m, place', hm, hrun, hrow, hagree⟩ := writeFragments_ok header hsession supplier hcopy termID hm ha hlen
    message.length message.length offset beginFrag b place (Int.natCast_nonneg _) (Int.le_refl _) (Int.le_refl _) hs
    hlo hin (by rwa [Int.sub_self])
  rw [Int.sub_self] at hrow
  refine ⟨m, ?_, ?_, hrow, hagree⟩
  · rw [hm, fragments, Int.toNat_natCast]
  · rw [Appender.storeFragments, fragments, Int.toNat_natCast, hrun, ok_bind]
    rfl

theorem storeFragments_stores (hm : 32 ≤ maxPayload) (ha : maxPayload % 32 = 0)
    (hlen : (message.length : Int) ≤ 1073741824) (place : τ) (hp : P 0 place) :
    Stores header.sessionID (messageSpace maxPayload message.length)
      (fragmentSlots maxPayload message.length beginFrag message) (fun _ => ())
      (Appender.storeFragments header message.length maxPayload supplier copy place) := by
  intro b offset termID hs hlo hin
  obtain ⟨m, _, hrun, hrow, hagree⟩ := storeFragments_ok header hsession supplier hcopy hm ha hlen place hp termID hs
    hlo hin
  exact ⟨m, hrun, hrow, hagree⟩

end Fragments

/-! ## The two sources of fragments -/

theorem copyOne_copies {src : Buffer} (hsrc : Source src srcOffset length) :
    Copies (sourceBytes src srcOffset length) (fun _ _ => True) (Appender.copyOne src srcOffset) := by
  intro b f place hs hoff hbytes hin hpos hend _
  have hsmall : b.length ≤ 1073741824 := hs
  have hsrcSmall : src.length < 2147483648 := hsrc.length_lt
  have hlo := hsrc.offset_nonneg
  have hsrcIn := hsrc.inside
  rw [hsrc.length_bytes] at hend
  have hslice : ((sourceBytes src srcOffset length).drop f.position.toNat).take f.bytesToWrite.toNat =
      Machine.read src.bytes (srcOffset + f.position) f.bytesToWrite.toNat := by
    rw [sourceBytes, drop_take_read _ _ (by omega), Int.toNat_of_nonneg hpos]
  refine ⟨(), ?_, trivial⟩
  rw [Appender.copyOne, headerLength, i32_eq (by omega), i32_eq (by omega),
    Buffer.putBytes_ok hs hsrc.length_lt (by omega) (by omega) (by omega) (by omega) (by omega), hslice]
  rfl

/-- The two copies stand at the same place of the message: the first part is used up first. -/
def TwoPlaces (src : TwoParts) (position : Int) (pos : Int × Int) : Prop :=
  pos = (min position src.lengthOne, position - min position src.lengthOne)

/-- The bytes of the two parts, from a place within the first. -/
theorem twoBytes_one (hsrc : TwoSources src) {position n : Int} (lo : 0 ≤ position)
    (hn : 0 ≤ n) (hi : position + n ≤ src.lengthOne) :
    ((twoBytes src).drop position.toNat).take n.toNat =
      Machine.read src.bufferOne.bytes (src.offsetOne + position) n.toNat := by
  have hone := hsrc.one.length_bytes
  rw [twoBytes, List.drop_append_of_le_length (by omega),
    List.take_append_of_le_length (by rw [List.length_drop]; omega), sourceBytes,
    drop_take_read _ _ (by omega), Int.toNat_of_nonneg lo]

/-- The bytes of the two parts, from a place within the second. -/
theorem twoBytes_two (hsrc : TwoSources src) {position : Int} (n : Int)
    (lo : src.lengthOne ≤ position) (hn : 0 ≤ n) (hi : position + n ≤ src.lengthOne + src.lengthTwo) :
    ((twoBytes src).drop position.toNat).take n.toNat =
      Machine.read src.bufferTwo.bytes (src.offsetTwo + (position - src.lengthOne)) n.toNat := by
  have hone := hsrc.one.length_bytes
  have hlo := hsrc.one.length_nonneg
  have hplace : position.toNat = (sourceBytes src.bufferOne src.offsetOne src.lengthOne).length +
      (position - src.lengthOne).toNat := by omega
  rw [twoBytes, hplace, ← List.drop_drop, List.drop_left, sourceBytes, drop_take_read _ _ (by omega),
    Int.toNat_of_nonneg (by omega)]

/-- What the inner loop leaves when it has copied `n` bytes of the message, from a position on. -/
def copied (src : TwoParts) (b : Buffer) (payloadOffset position n : Int) : Buffer × Int × Int :=
  (⟨write b.bytes payloadOffset (((twoBytes src).drop position.toNat).take n.toNat), b.length⟩,
    min (position + n) src.lengthOne, position + n - min (position + n) src.lengthOne)

theorem copied_zero (src : TwoParts) (b : Buffer) (payloadOffset position : Int) :
    copied src b payloadOffset position 0 = (b, min position src.lengthOne, position - min position src.lengthOne) := by
  rw [copied, Int.add_zero, Int.toNat_zero, List.take_zero, show write b.bytes payloadOffset [] = b.bytes from
    write_read b.bytes payloadOffset 0]

/-- The next bytes go behind those already copied. -/
theorem copied_add (hsrc : TwoSources src) (b : Buffer) (payloadOffset : Int) {position n k : Int} (hpos : 0 ≤ position)
    (hn : 0 ≤ n) (hk : 0 ≤ k) (hend : position + n + k ≤ src.lengthOne + src.lengthTwo) :
    (⟨write (copied src b payloadOffset position n).1.bytes (payloadOffset + n)
        (((twoBytes src).drop (position + n).toNat).take k.toNat), b.length⟩ : Buffer) =
      (copied src b payloadOffset position (n + k)).1 := by
  have hlength : (((twoBytes src).drop position.toNat).take n.toNat).length = n.toNat := by
    have := hsrc.length_bytes
    rw [List.length_take, List.length_drop]
    omega
  simp only [copied]
  rw [Int.toNat_add hn hk, List.take_add, write_append, hlength, Int.toNat_of_nonneg hn, List.drop_drop,
    Int.toNat_add hpos hn]

/-- The inner loop goes on from the bytes already copied until all of the fragment's are. -/
theorem copyParts_ok (hsrc : TwoSources src) {b : Buffer} {bytesToWrite payloadOffset position : Int}
    (hs : Addressable b) (hoff : 0 ≤ payloadOffset) (hin : payloadOffset + bytesToWrite ≤ b.length)
    (hpos : 0 ≤ position) (hend : position + bytesToWrite ≤ src.lengthOne + src.lengthTwo) (fuel : Nat) :
    ∀ n, 0 ≤ n → n ≤ bytesToWrite → bytesToWrite - n < fuel →
      Appender.copyParts src bytesToWrite fuel n (payloadOffset + n) (min (position + n) src.lengthOne)
          (position + n - min (position + n) src.lengthOne) (copied src b payloadOffset position n).1 =
        .ok (copied src b payloadOffset position bytesToWrite) := by
  induction fuel with
  | zero =>
    intro n _ hle hfuel
    omega
  | succ fuel ih =>
    intro n hn hle hfuel
    have hsmall : b.length ≤ 1073741824 := hs
    obtain ⟨honeSmall, honeLo, honeLength, hone⟩ := hsrc.one
    obtain ⟨htwoSmall, htwoLo, -, htwo⟩ := hsrc.two
    have hs' : Addressable (copied src b payloadOffset position n).1 := hs
    have hlength : (copied src b payloadOffset position n).1.length = b.length := rfl
    rw [Appender.copyParts]
    by_cases hmore : n < bytesToWrite
    · rw [if_pos hmore, i32_eq (x := bytesToWrite - n) (by omega)]
      by_cases hfirst : position + n < src.lengthOne
      · rw [Int.min_eq_left (Int.le_of_lt hfirst), i32_eq (x := src.lengthOne - (position + n)) (by omega),
          i32_eq (x := src.offsetOne + (position + n)) (by omega)]
        simp only [if_pos (show 0 < src.lengthOne - (position + n) by omega)]
        have hk : 0 < min (bytesToWrite - n) (src.lengthOne - (position + n)) ∧
            min (bytesToWrite - n) (src.lengthOne - (position + n)) ≤ bytesToWrite - n ∧
            position + (n + min (bytesToWrite - n) (src.lengthOne - (position + n))) ≤ src.lengthOne := by omega
        generalize min (bytesToWrite - n) (src.lengthOne - (position + n)) = k at hk
        have hnext := ih (n + k) (by omega) (by omega) (by omega)
        rw [Int.min_eq_left hk.2.2] at hnext
        rw [Buffer.putBytes_ok hs' honeSmall (by omega) (by omega) (by omega) (by omega) (by omega), ok_bind,
          i32_eq (by omega), i32_eq (by omega), i32_eq (by omega), ← twoBytes_one hsrc (by omega) (by omega) (by omega),
          hlength, copied_add hsrc b _ hpos hn (by omega) (by omega)]
        simpa only [Int.add_assoc, Int.sub_self] using hnext
      · rw [Int.min_eq_right (Int.not_lt.mp hfirst), Int.sub_self, i32_eq (x := 0) (by omega),
          i32_eq (x := src.lengthTwo - (position + n - src.lengthOne)) (by omega),
          i32_eq (x := src.offsetTwo + (position + n - src.lengthOne)) (by omega), Int.min_eq_left (by omega)]
        simp only [Int.lt_irrefl, if_false]
        obtain ⟨k, rfl⟩ : ∃ k, bytesToWrite = n + k := ⟨bytesToWrite - n, by omega⟩
        have hnext := ih (n + k) (by omega) (Int.le_refl _) (by omega)
        rw [Int.min_eq_right (by omega)] at hnext
        rw [add_sub_cancel_left, Buffer.putBytes_ok hs' htwoSmall (by omega) (by omega) (by omega) (by omega) (by omega),
          ok_bind, i32_eq (by omega), i32_eq (by omega), i32_eq (by omega),
          ← twoBytes_two hsrc k (by omega) (by omega) (by omega), hlength, copied_add hsrc b _ hpos hn (by omega) (by omega)]
        rw [show position + n - src.lengthOne + k = position + (n + k) - src.lengthOne by omega, Int.add_assoc]
        exact hnext
    · obtain rfl : n = bytesToWrite := by omega
      rw [if_neg hmore]
      rfl

theorem copyTwo_copies (hsrc : TwoSources src) :
    Copies (twoBytes src) (TwoPlaces src) (Appender.copyTwo src) := by
  intro b f pos hs hoff hbytes hin hpos hend hplace
  have hsmall : b.length ≤ 1073741824 := hs
  rw [hsrc.length_bytes] at hend
  have h := copyParts_ok hsrc hs (show 0 ≤ f.offset + 32 by omega) hin hpos hend (f.bytesToWrite.toNat + 1) 0
    (Int.le_refl 0) (by omega) (by omega)
  rw [copied_zero, Int.add_zero, Int.add_zero] at h
  refine ⟨_, ?_, rfl⟩
  rw [Appender.copyTwo, hplace, headerLength, i32_eq (by omega), h]
  rfl

end AeronGo.LogBuffer
