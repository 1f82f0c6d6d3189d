import AeronGo.Laws.Cluster.SnapshotLoader

/-!
# Laws of the snapshot codecs

What is written is read back (`SnapshotMarker.reads_decode`, `ClientSession.reads_decode`), provided that
it passes its own range check; and a packet that is cut off behind its header cannot be decoded
(`messageOf_markerBytes`, `messageOf_sessionBytes`), since every decoder of the current schema version is stable.
Nothing is said of packets of other versions, nor of what a decoder makes of bytes that no encoder wrote.
-/

namespace AeronGo.Cluster.Codecs

open Machine Reader

/-! ## Fields -/

variable {field : String} {v value : Int}

namespace Decoder

/-- The encoder keeps the low 16 bits, so the value has to be in range. -/
theorem reads_uint16 (lo : 0 ≤ v) (hi : v < 65536) : Reads uint16 (leBytes 2 v) v := by
  have h := Reads.word CodecError.eof 2 v
  rwa [Int.emod_eq_of_lt lo (by simpa using hi)] at h

/-- Signed values come back through the conversion of the word. -/
theorem reads_int32 (h : I32 v) : Reads int32 (leBytes 4 v) v := by
  have hvalue : i32 (v % 256 ^ 4) = v := by
    obtain ⟨lo, hi⟩ := h
    unfold i32
    omega
  refine (Reads.word CodecError.eof 4 v).andThen ?_
  rw [hvalue]
  exact Reads.pure v

/-- The same of eight bytes. -/
theorem reads_int64 (h : I64 v) : Reads int64 (leBytes 8 v) v := by
  have hvalue : i64 (v % 256 ^ 8) = v := by
    obtain ⟨lo, hi⟩ := h
    unfold i64
    omega
  refine (Reads.word CodecError.eof 8 v).andThen ?_
  rw [hvalue]
  exact Reads.pure v

/-- A length prefix of four bytes, then the bytes themselves. -/
theorem reads_varData {bytes : List UInt8} (h : bytes.length < 4294967296) :
    Reads varData (leBytes 4 bytes.length ++ bytes) bytes := by
  have hlength := Reads.word CodecError.eof 4 bytes.length
  rw [Int.emod_eq_of_lt (Int.natCast_nonneg _) (by norm_num; omega)] at hlength
  refine hlength.bind ?_
  rw [Int.toNat_natCast]
  exact Reads.take CodecError.eof bytes

/-- Reading a field off a longer input gives the same, and off a shorter one an error. -/
theorem stable_int32 : Stable int32 := (Stable.word CodecError.eof 4).bind fun _ => Stable.pure _

/-- The same of eight bytes. -/
theorem stable_int64 : Stable int64 := (Stable.word CodecError.eof 8).bind fun _ => Stable.pure _

/-- The length is read first, so a field that is cut off anywhere is an error. -/
theorem stable_varData : Stable varData := (Stable.word CodecError.eof 4).bind fun _ => Stable.take CodecError.eof _

end Decoder

/-- A range check reads nothing. -/
theorem stable_checked (check : Except CodecError Unit) : Stable (checked check) := by
  unfold checked
  cases check with
  | error e => exact Stable.fail e
  | ok u => exact Stable.pure ()

/-- The block of the current version has nothing to be dropped. -/
theorem skipBlock_current (blockLength sbeBlockLength : Int) :
    skipBlock schemaVersion blockLength sbeBlockLength = pure () := by
  unfold skipBlock
  rw [if_neg fun h => absurd h.1 (by decide)]

/-! ## Range checks -/

/-- A chain of checks passes only if each of them does. -/
theorem ok_of_check {α : Type} {check : Except CodecError Unit} {f : Unit → Except CodecError α} {a : α}
    (h : (check >>= f) = .ok a) : check = .ok () ∧ f () = .ok a := by
  cases check with
  | error e => cases h
  | ok u => exact ⟨rfl, h⟩

/-- What passes is between its bounds. -/
theorem bounds_of_inRange {min value max : Int} (h : inRange field min value max = .ok ()) :
    min ≤ value ∧ value ≤ max := by
  unfold inRange at h
  split at h
  · cases h
  next hin => omega

/-- A field that passes can be written as eight bytes. -/
theorem I64_of_int64Range (h : int64Range field value = .ok ()) : I64 value := by
  have := bounds_of_inRange h
  exact ⟨by omega, by omega⟩

/-- A field that passes can be written as four. -/
theorem I32_of_int32Range (h : int32Range field value = .ok ()) : I32 value := by
  have := bounds_of_inRange h
  exact ⟨by omega, by omega⟩

/-! ## Message header -/

/-- Block length, template, schema and version, two bytes each. -/
theorem MessageHeader.length_encode (h : MessageHeader) : h.encode.length = 8 := by
  simp [MessageHeader.encode]

/-- A header of four unsigned words is read back. -/
theorem MessageHeader.reads_decode (h : MessageHeader) (hblock : 0 ≤ h.blockLength ∧ h.blockLength < 65536)
    (htemplate : 0 ≤ h.templateId ∧ h.templateId < 65536) (hschema : 0 ≤ h.schemaId ∧ h.schemaId < 65536)
    (hversion : 0 ≤ h.version ∧ h.version < 65536) : Reads MessageHeader.decode h.encode h := by
  unfold MessageHeader.encode
  rw [List.append_assoc, List.append_assoc]
  refine (Decoder.reads_uint16 hblock.1 hblock.2).bind ((Decoder.reads_uint16 htemplate.1 htemplate.2).bind
    ((Decoder.reads_uint16 hschema.1 hschema.2).bind ((Decoder.reads_uint16 hversion.1 hversion.2).andThen ?_)))
  exact Reads.pure h

/-! ## Snapshot marker -/

namespace SnapshotMarker

variable {m : SnapshotMarker}

/-- A marker has no variable part. -/
theorem length_body (m : SnapshotMarker) : m.body.length = 40 := by
  simp [body]

/-- What the enumerations stand for is read back. -/
theorem ofInt_toInt (h : m.rangeCheck schemaVersion = .ok ()) :
    SnapshotMark.ofInt m.mark.toInt = m.mark ∧ I32 m.mark.toInt ∧
      ClusterTimeUnit.ofInt m.timeUnit.toInt = m.timeUnit ∧ I32 m.timeUnit.toInt := by
  unfold rangeCheck at h
  obtain ⟨_, h⟩ := ok_of_check h
  obtain ⟨_, h⟩ := ok_of_check h
  obtain ⟨_, h⟩ := ok_of_check h
  obtain ⟨_, h⟩ := ok_of_check h
  obtain ⟨hmark, h⟩ := ok_of_check h
  obtain ⟨hunit, _⟩ := ok_of_check h
  have hmark' : SnapshotMark.ofInt m.mark.toInt = m.mark ∧ I32 m.mark.toInt := by
    cases hm : m.mark with
    | unknown value =>
      rw [hm] at hmark
      cases hmark
    | _ => exact ⟨rfl, by unfold I32; decide⟩
  have hunit' : ClusterTimeUnit.ofInt m.timeUnit.toInt = m.timeUnit ∧ I32 m.timeUnit.toInt := by
    cases hm : m.timeUnit with
    | unknown value =>
      rw [hm] at hunit
      cases hunit
    | _ => exact ⟨rfl, by unfold I32; decide⟩
  exact ⟨hmark'.1, hmark'.2, hunit'.1, hunit'.2⟩

/-- The check of the other fields. The app version may be 0, which stands for none. -/
theorem fields_range (h : m.rangeCheck schemaVersion = .ok ()) :
    I64 m.typeId ∧ I64 m.logPosition ∧ I64 m.leadershipTermId ∧ I32 m.index ∧ I32 m.appVersion := by
  unfold rangeCheck at h
  obtain ⟨htype, h⟩ := ok_of_check h
  obtain ⟨hposition, h⟩ := ok_of_check h
  obtain ⟨hterm, h⟩ := ok_of_check h
  obtain ⟨hindex, h⟩ := ok_of_check h
  obtain ⟨_, h⟩ := ok_of_check h
  obtain ⟨_, h⟩ := ok_of_check h
  refine ⟨I64_of_int64Range htype, I64_of_int64Range hposition, I64_of_int64Range hterm, I32_of_int32Range hindex, ?_⟩
  split at h
  · have := bounds_of_inRange h
    exact ⟨by omega, by omega⟩
  next hzero =>
    have : m.appVersion = 0 := by
      by_contra hne
      exact hzero ⟨by decide, hne⟩
    rw [this]
    unfold I32
    decide

/-- **A marker that passes its check is read back.** -/
theorem reads_decode (h : m.rangeCheck schemaVersion = .ok ()) (blockLength : Int) :
    Reads (decode schemaVersion blockLength true) m.body m := by
  obtain ⟨htype, hposition, hterm, hindex, hversion⟩ := fields_range h
  obtain ⟨hmark, hmarkRange, hunit, hunitRange⟩ := ofInt_toInt h
  unfold decode
  rw [skipBlock_current]
  refine (Decoder.reads_int64 htype).bind ((Decoder.reads_int64 hposition).bind ((Decoder.reads_int64 hterm).bind
    ((Decoder.reads_int32 hindex).bind ((Decoder.reads_int32 hmarkRange).bind
      ((Decoder.reads_int32 hunitRange).bind ((Decoder.reads_int32 hversion).andThen ?_))))))
  rw [hmark, hunit]
  intro rest
  show (checked (m.rangeCheck schemaVersion) >>= fun _ => pure m) ([] ++ rest) = _
  rw [h]
  rfl

/-- Every field of the marker is read, in the order in which it was written. -/
theorem stable_decode (blockLength : Int) : Stable (decode schemaVersion blockLength true) := by
  unfold decode
  rw [skipBlock_current]
  refine Decoder.stable_int64.bind fun _ => Decoder.stable_int64.bind fun _ => Decoder.stable_int64.bind fun _ =>
    Decoder.stable_int32.bind fun _ => Decoder.stable_int32.bind fun _ => Decoder.stable_int32.bind fun _ =>
      Decoder.stable_int32.bind fun _ => (Stable.pure ()).bind fun _ => ?_
  exact (stable_checked _).bind fun _ => Stable.pure _

end SnapshotMarker

/-! ## Client session -/

namespace ClientSession

variable {c : ClientSession}

/-- The fixed block, and two fields with their lengths. -/
theorem length_body (c : ClientSession) : c.body.length = 20 + c.responseChannel.length + c.encodedPrincipal.length := by
  simp only [body, List.length_append, length_leBytes]
  omega

/-- **A session that passes its check is read back.** -/
theorem reads_decode (h : c.rangeCheck = .ok ()) (hchannel : c.responseChannel.length < 4294967296)
    (hprincipal : c.encodedPrincipal.length < 4294967296) (blockLength : Int) :
    Reads (decode schemaVersion blockLength true) c.body c := by
  have hcheck := h
  unfold rangeCheck at h
  obtain ⟨hid, h⟩ := ok_of_check h
  obtain ⟨hstream, _⟩ := ok_of_check h
  unfold decode
  rw [skipBlock_current]
  refine (Decoder.reads_int64 (I64_of_int64Range hid)).bind ((Decoder.reads_int32 (I32_of_int32Range hstream)).bind ?_)
  show Reads (Decoder.varData >>= _) _ c
  refine (Decoder.reads_varData hchannel).bind ((Decoder.reads_varData hprincipal).andThen ?_)
  intro rest
  show (checked c.rangeCheck >>= fun _ => pure c) ([] ++ rest) = _
  rw [hcheck]
  rfl

/-- The channel and the principal end the session. -/
theorem stable_decode (blockLength : Int) : Stable (decode schemaVersion blockLength true) := by
  unfold decode
  rw [skipBlock_current]
  refine Decoder.stable_int64.bind fun _ => Decoder.stable_int32.bind fun _ => (Stable.pure ()).bind fun _ =>
    Decoder.stable_varData.bind fun _ => Decoder.stable_varData.bind fun _ => ?_
  exact (stable_checked _).bind fun _ => Stable.pure _

end ClientSession

/-! ## Packets -/

/-- The header that the encoder puts before a marker. -/
def markerHeader : MessageHeader := ⟨SnapshotMarker.sbeBlockLength, SnapshotMarker.templateId, schemaId, schemaVersion⟩

/-- The header that the encoder puts before a session. -/
def sessionHeader : MessageHeader := ⟨ClientSession.sbeBlockLength, ClientSession.templateId, schemaId, schemaVersion⟩

/-- The packet of a marker. -/
def markerBytes (m : SnapshotMarker) : List UInt8 := markerHeader.encode ++ m.body

/-- The packet of a session. -/
def sessionBytes (c : ClientSession) : List UInt8 := sessionHeader.encode ++ c.body

/-- A marker takes the same space in every snapshot. -/
theorem length_markerBytes (m : SnapshotMarker) : (markerBytes m).length = 48 := by
  rw [markerBytes, List.length_append, MessageHeader.length_encode, SnapshotMarker.length_body]

/-- The space of a session grows with its channel and its principal. -/
theorem length_sessionBytes (c : ClientSession) :
    (sessionBytes c).length = 28 + c.responseChannel.length + c.encodedPrincipal.length := by
  rw [sessionBytes, List.length_append, MessageHeader.length_encode, ClientSession.length_body]
  omega

/-- With or without range checking the taker sends these bytes. -/
theorem snapshotMarkerPacket_ok {m : SnapshotMarker} (h : m.rangeCheck schemaVersion = .ok ()) (rangeChecking : Bool) :
    snapshotMarkerPacket rangeChecking m = .ok (markerBytes m) := by
  unfold snapshotMarkerPacket SnapshotMarker.encode
  cases rangeChecking with
  | false => rfl
  | true =>
    rw [if_pos rfl, h]
    rfl

/-- The same of a session. -/
theorem clientSessionPacket_ok {c : ClientSession} (h : c.rangeCheck = .ok ()) (rangeChecking : Bool) :
    clientSessionPacket rangeChecking c = .ok (sessionBytes c) := by
  unfold clientSessionPacket ClientSession.encode
  cases rangeChecking with
  | false => rfl
  | true =>
    rw [if_pos rfl, h]
    rfl

end AeronGo.Cluster.Codecs

namespace AeronGo.Cluster.Service

open Machine Reader Codecs

/-- A message with a whole header is what its body says. -/
theorem messageOf_header {h : MessageHeader} (hreads : Reads MessageHeader.decode h.encode h) (body : List UInt8) :
    messageOf (h.encode ++ body) = messageIn h body := by
  have hlong : ¬(h.encode ++ body).length < sbeHeaderLength := by
    rw [List.length_append, MessageHeader.length_encode, sbeHeaderLength]
    omega
  rw [messageOf, if_neg hlong, hreads body]

/-- The fields of a marker's header are in range. -/
theorem reads_markerHeader : Reads MessageHeader.decode markerHeader.encode markerHeader :=
  markerHeader.reads_decode (by decide) (by decide) (by decide) (by decide)

/-- And those of a session's. -/
theorem reads_sessionHeader : Reads MessageHeader.decode sessionHeader.encode sessionHeader :=
  sessionHeader.reads_decode (by decide) (by decide) (by decide) (by decide)

/-- The template of a marker runs the marker's decoder. -/
theorem messageIn_marker (body : List UInt8) :
    messageIn markerHeader body = match SnapshotMarker.decode schemaVersion SnapshotMarker.sbeBlockLength true body with
      | .error err => .undecodable err
      | .ok (marker, _) => .marker marker := by
  rw [messageIn, if_neg (by decide), if_pos (by decide)]
  rfl

/-- The template of a session runs the session's. -/
theorem messageIn_session (body : List UInt8) :
    messageIn sessionHeader body = match ClientSession.decode schemaVersion ClientSession.sbeBlockLength true body with
      | .error err => .undecodable err
      | .ok (session, _) => .session session := by
  rw [messageIn, if_neg (by decide), if_neg (by decide), if_pos (by decide)]
  rfl

/-- A packet that is cut off behind its header. -/
theorem take_packet (h : MessageHeader) (body : List UInt8) {n : Nat} (hn : 8 ≤ n) :
    (h.encode ++ body).take n = h.encode ++ body.take (n - 8) := by
  rw [List.take_append, MessageHeader.length_encode, List.take_of_length_le (by rw [MessageHeader.length_encode]; exact hn)]

/-- **A marker is read back, and cannot be decoded when it is cut off.** -/
theorem messageOf_markerBytes {m : SnapshotMarker} (h : m.rangeCheck schemaVersion = .ok ()) :
    messageOf (markerBytes m) = .marker m ∧
      ∀ n, 8 ≤ n → n < (markerBytes m).length → ∃ err, messageOf ((markerBytes m).take n) = .undecodable err := by
  have hreads := SnapshotMarker.reads_decode h SnapshotMarker.sbeBlockLength []
  rw [List.append_nil] at hreads
  constructor
  · rw [markerBytes, messageOf_header reads_markerHeader, messageIn_marker, hreads]
  · intro n hn hlt
    rw [length_markerBytes] at hlt
    have hrest : m.body.drop (n - 8) ≠ [] := by
      rw [ne_eq, List.drop_eq_nil_iff, SnapshotMarker.length_body]
      omega
    rw [← List.take_append_drop (n - 8) m.body] at hreads
    obtain ⟨err, herr⟩ := (SnapshotMarker.stable_decode _).short hrest hreads
    refine ⟨err, ?_⟩
    rw [markerBytes, take_packet markerHeader m.body hn, messageOf_header reads_markerHeader, messageIn_marker, herr]

/-- **A session is read back, and cannot be decoded when it is cut off.** -/
theorem messageOf_sessionBytes {c : ClientSession} (h : c.rangeCheck = .ok ())
    (hsmall : (sessionBytes c).length < 4294967296) :
    messageOf (sessionBytes c) = .session c ∧
      ∀ n, 8 ≤ n → n < (sessionBytes c).length → ∃ err, messageOf ((sessionBytes c).take n) = .undecodable err := by
  rw [length_sessionBytes] at hsmall
  have hreads := ClientSession.reads_decode h (by omega) (by omega) ClientSession.sbeBlockLength []
  rw [List.append_nil] at hreads
  constructor
  · rw [sessionBytes, messageOf_header reads_sessionHeader, messageIn_session, hreads]
  · intro n hn hlt
    rw [length_sessionBytes] at hlt
    have hrest : c.body.drop (n - 8) ≠ [] := by
      rw [ne_eq, List.drop_eq_nil_iff, ClientSession.length_body]
      omega
    rw [← List.take_append_drop (n - 8) c.body] at hreads
    obtain ⟨err, herr⟩ := (ClientSession.stable_decode _).short hrest hreads
    refine ⟨err, ?_⟩
    rw [sessionBytes, take_packet sessionHeader c.body hn, messageOf_header reads_sessionHeader, messageIn_session, herr]

end AeronGo.Cluster.Service
