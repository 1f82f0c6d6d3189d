import AeronGo.Cluster.SnapshotTaker
import AeronGo.Laws.Cluster.Codecs
import AeronGo.Laws.Stream.ToEnd

/-!
# A snapshot that is written and loaded

The loader is handed the fragments of the log and takes each as a message of its own (`Fed`). A packet
that fits into one frame is read back; the first frame of one that does not is cut off, and stops the
loader with an error. The taker leaves a packet out, without an error, if its time is up before it has
offered it. So a snapshot is loaded as it was taken exactly if each of its packets was offered in time and
fits into a frame (`snapshot_roundtrip_iff`). The laws are about a taker that has come to its end without
an error; they do not say when it does.
-/

namespace AeronGo.Cluster.Service

open Machine Util Atomic LogBuffer Codecs
open AeronGo.Stream (StreamParams)

/-! ## What the loader is handed -/

def payloadOf : Slot → Option (List UInt8)
  | .data _ payload => some payload
  | .padding _ => none
  | .pending _ => none

/-- The payloads among slots. -/
def payloads (slots : List Slot) : List (List UInt8) := slots.filterMap payloadOf

theorem payloads_snoc (slots : List Slot) (s : Slot) : payloads (slots ++ [s]) = payloads slots ++ (payloadOf s).toList := by
  unfold payloads
  rw [List.filterMap_append]
  cases s <;> rfl

/-- The payloads of the frames of a message. -/
def framesOf (maxPayload : Int) (message : List UInt8) : List (List UInt8) := payloads (messageSlots maxPayload message)

theorem framesOf_short {maxPayload : Int} {message : List UInt8} (h : message.length ≤ maxPayload) :
    framesOf maxPayload message = [message] := by
  rw [framesOf, messageSlots, if_pos h]
  rfl

/-- The first frame of a message that is too long. -/
theorem framesOf_long {maxPayload : Int} {message : List UInt8} (hpos : 0 < maxPayload)
    (h : ¬(message.length : Int) ≤ maxPayload) :
    ∃ rest, framesOf maxPayload message = message.take maxPayload.toNat :: rest := by
  obtain ⟨fuel, hfuel⟩ : ∃ fuel, message.length = fuel + 1 := ⟨message.length - 1, by omega⟩
  refine ⟨payloads (fragmentSlots maxPayload fuel 0 (message.drop maxPayload.toNat)), ?_⟩
  rw [framesOf, messageSlots, if_neg h, hfuel, fragmentSlots, if_pos (by omega), if_neg h]
  rfl

/-- The payloads of a log are those of its messages. -/
theorem payloads_slotsOf (maxPayload : Int) (entries : List Stream.Entry) :
    payloads (Stream.slotsOf maxPayload entries) = (Stream.messagesOf entries).flatMap (framesOf maxPayload) := by
  induction entries with
  | nil => rfl
  | cons e entries ih =>
    rw [Stream.slotsOf_cons, payloads, List.filterMap_append, Stream.messagesOf_cons, List.flatMap_append, ← ih]
    refine congrArg₂ (· ++ ·) ?_ rfl
    cases e with
    | endOfTerm n => rfl
    | record r =>
      obtain ⟨position, outcome⟩ := r
      cases outcome with
      | message bytes =>
        show framesOf maxPayload bytes = [bytes].flatMap (framesOf maxPayload)
        rw [List.flatMap_singleton]
      | pending length => rfl
      | aborted length => rfl

section Loader

variable {addPublication : Nat → Option String}

/-- The loader is handed payloads, each in a frame at some position. -/
def Fed (addPublication : Nat → Option String) : Loading → List (List UInt8) → Loading → Prop
  | l, [], l' => l' = l
  | l, x :: rest, l' => ∃ position, Fed addPublication (l.onFragment addPublication ⟨x, position⟩) rest l'

variable {l l' : Loading} {xs : List (List UInt8)}

theorem Fed.append {m r : Loading} {ys : List (List UInt8)} (hx : Fed addPublication l xs m)
    (hy : Fed addPublication m ys r) : Fed addPublication l (xs ++ ys) r := by
  induction xs generalizing l with
  | nil =>
    obtain rfl : m = l := hx
    exact hy
  | cons x xs ih =>
    obtain ⟨position, hx⟩ := hx
    exact ⟨position, ih hx⟩

/-- An error stays one. -/
theorem Fed.err (h : Fed addPublication l xs l') (herr : l.1.err ≠ none) :
    l'.1.err ≠ none := by
  induction xs generalizing l with
  | nil =>
    obtain rfl : l' = l := h
    exact herr
  | cons x xs ih =>
    obtain ⟨position, h⟩ := h
    refine ih h ?_
    rw [Loading.onFragment_eq]
    by_cases hbad : isBad addPublication l (messageOf x) = true
    · exact (Loading.onMessage_bad position hbad).1
    · by_cases hend : isEnd l (messageOf x) = true
      · cases hm : messageOf x with
        | marker marker =>
          rw [hm] at hend
          simp only [isEnd, Bool.and_eq_true, decide_eq_true_eq] at hend
          simp only [Loading.onMessage, SnapshotLoader.onMarker, hend.1.1, ne_eq, not_true, if_false, hend.1.2, hend.2,
            if_true]
          exact herr
        | _ =>
          rw [hm] at hend
          cases hend
      · rw [(Loading.onMessage_good position (Bool.eq_false_iff.mpr hbad) (Bool.eq_false_iff.mpr hend)).2]
        exact herr

/-- A loader that is not done, but has ended, has been handed the next payload. -/
theorem Fed.next {first : List UInt8} {tail ys : List (List UInt8)} (hopen : l.1.isDone = false)
    (h : Fed addPublication l xs l') (hsplit : first :: tail = xs ++ ys) (hend : l'.1.isDone = true ∨ ys = []) :
    ∃ xs' position, tail = xs' ++ ys ∧ Fed addPublication (l.onFragment addPublication ⟨first, position⟩) xs' l' := by
  cases xs with
  | nil =>
    obtain rfl : l' = l := h
    obtain rfl : ys = first :: tail := hsplit.symm
    rcases hend with hdone | hnil
    · rw [hopen] at hdone
      cases hdone
    · cases hnil
  | cons x xs =>
    obtain ⟨rfl, htail⟩ := List.cons.inj hsplit
    obtain ⟨position, h⟩ := h
    exact ⟨xs, position, htail, h⟩

/-- A loader that was handed a frame that it cannot decode has an error in the end. -/
theorem Fed.undecodable {first : List UInt8} {position : Int} {err : CodecError}
    (hfirst : messageOf first = .undecodable err)
    (h : Fed addPublication (l.onFragment addPublication ⟨first, position⟩) xs l') : l'.1.err ≠ none := by
  refine h.err ?_
  rw [Loading.onFragment_eq, hfirst]
  exact nofun

end Loader

/-! ## The snapshot in the loader -/

/-- What of a session is in a snapshot. -/
def ContainerClientSession.content (s : ContainerClientSession) : ClientSession :=
  ⟨s.id, s.responseStreamId, s.responseChannel, s.encodedPrincipal⟩

/-- The loader has loaded the snapshot as it was taken. -/
def RoundTrip (snapshot : Snapshot) (l : Loading) : Prop :=
  l.1.isDone = true ∧ l.1.err = none ∧ l.1.appVersion = snapshot.appVersion ∧ l.1.timeUnit = snapshot.timeUnit ∧
    l.2.sessions.map ContainerClientSession.content = snapshot.sessions

instance (snapshot : Snapshot) (l : Loading) : Decidable (RoundTrip snapshot l) := inferInstanceAs (Decidable (_ ∧ _))

/-- The loader reads on, with some sessions. It has `begun` if it has seen the begin marker. -/
structure Reading (snapshot : Snapshot) (begun : Bool) (sessions : List ClientSession) (l : Loading) : Prop where
  isOpen : l.1.isDone = false
  inSnapshot : l.1.inSnapshot = begun
  err : l.1.err = none
  appVersion : begun = true → l.1.appVersion = snapshot.appVersion
  timeUnit : begun = true → l.1.timeUnit = snapshot.timeUnit
  sessions : l.2.sessions.map ContainerClientSession.content = sessions

/-- All fields are such that the codecs take them, and no two sessions have one id. -/
structure Snapshot.Sane (snapshot : Snapshot) : Prop where
  beginMark : (snapshot.marker .BEGIN).rangeCheck schemaVersion = .ok ()
  endMark : (snapshot.marker .END).rangeCheck schemaVersion = .ok ()
  sessions : ∀ c ∈ snapshot.sessions, c.rangeCheck = .ok ()
  distinct : (snapshot.sessions.map (·.clusterSessionId)).Nodup

/-- The packets of a sane snapshot. -/
def Snapshot.bytes (snapshot : Snapshot) : List (List UInt8) :=
  markerBytes (snapshot.marker .BEGIN) :: (snapshot.sessions.map sessionBytes ++ [markerBytes (snapshot.marker .END)])

theorem Snapshot.Sane.packets {snapshot : Snapshot} (h : snapshot.Sane) (rangeChecking : Bool) :
    snapshot.packets rangeChecking = snapshot.bytes.map .ok := by
  have hsessions : snapshot.sessions.map (clientSessionPacket rangeChecking) =
      (snapshot.sessions.map sessionBytes).map .ok := by
    rw [List.map_map]
    exact List.map_congr_left fun c hc => clientSessionPacket_ok (h.sessions c hc) rangeChecking
  rw [Snapshot.packets, Snapshot.bytes, snapshotMarkerPacket_ok h.beginMark, snapshotMarkerPacket_ok h.endMark, hsessions]
  simp

section Steps

variable {addPublication : Nat → Option String} (hcreate : ∀ n, addPublication n = none) {snapshot : Snapshot}
  (hsane : snapshot.Sane)

omit hcreate in
include hsane in
/-- The begin marker. -/
theorem Reading.start {agent : Agent} (hagent : agent.sessions = []) (position : Int) :
    Reading snapshot true [] (Loading.onFragment addPublication (SnapshotLoader.fresh, agent)
      ⟨markerBytes (snapshot.marker .BEGIN), position⟩) := by
  rw [Loading.onFragment_eq, (messageOf_markerBytes hsane.beginMark).1]
  refine ⟨rfl, rfl, rfl, fun _ => rfl, fun _ => rfl, ?_⟩
  show agent.sessions.map _ = []
  rw [hagent]
  rfl

variable {begun : Bool} {done : List ClientSession}

include hcreate in
/-- A session with an id that was not there. -/
theorem Reading.session {l : Loading}
    (h : Reading snapshot begun done l) {c : ClientSession}
    (hc : c.rangeCheck = .ok ()) (hsmall : (sessionBytes c).length < 4294967296)
    (hnew : c.clusterSessionId ∉ done.map (·.clusterSessionId)) (position : Int) :
    Reading snapshot begun (done ++ [c]) (l.onFragment addPublication ⟨sessionBytes c, position⟩) := by
  have hids : l.2.sessions.filter (fun s => decide (s.id ≠ c.clusterSessionId)) = l.2.sessions := by
    rw [List.filter_eq_self]
    intro s hs
    rw [decide_eq_true_eq]
    intro hid
    refine hnew ?_
    rw [← h.sessions, List.map_map, ← hid]
    exact List.mem_map.mpr ⟨s, hs, rfl⟩
  rw [Loading.onFragment_eq, (messageOf_sessionBytes hc hsmall).1]
  simp only [Loading.onMessage, Loading.onSession, Agent.newContainerClientSession, hcreate]
  refine ⟨h.isOpen, h.inSnapshot, h.err, h.appVersion, h.timeUnit, ?_⟩
  simp only [Agent.addSessionFromSnapshot, Agent.putSession, hids, List.map_append, h.sessions]
  rfl

omit hcreate in
include hsane in
/-- The end marker ends the snapshot with the sessions that are there; without a begin it is an error. -/
theorem Reading.finish {l : Loading} (h : Reading snapshot begun done l)
    (position : Int) :
    RoundTrip snapshot (l.onFragment addPublication ⟨markerBytes (snapshot.marker .END), position⟩) ↔
      begun = true ∧ done = snapshot.sessions := by
  rw [Loading.onFragment_eq, (messageOf_markerBytes hsane.endMark).1, Loading.onMessage]
  have hmarker : l.1.onMarker position (snapshot.marker .END) =
      if begun then { l.1 with inSnapshot := false, isDone := true }
      else l.1.stop (.text ("missing beging snapshot, pos=" ++ toString position)) := by
    simp only [SnapshotLoader.onMarker, Snapshot.marker, ne_eq, not_true, if_false, h.inSnapshot]
  rw [hmarker]
  cases hbegun : begun with
  | false =>
    refine iff_of_false (fun hround => ?_) fun hcontra => Bool.false_ne_true hcontra.1
    exact Option.some_ne_none _ hround.2.1
  | true =>
    rw [← h.sessions]
    exact ⟨fun hround => ⟨rfl, hround.2.2.2.2⟩,
      fun hall => ⟨rfl, h.err, h.appVersion hbegun, h.timeUnit hbegun, hall.2⟩⟩

variable {maxPayload : Int} (hmax : 8 ≤ maxPayload) {l l' : Loading} {xs ys : List (List UInt8)}

omit hcreate in
include hmax in
/-- A packet that does not fit into a frame leaves an error, if each proper part of it is undecodable. -/
theorem not_roundTrip_of_long {packet : List UInt8} {tail : List (List UInt8)}
    (hcut : ∀ n, 8 ≤ n → n < packet.length → ∃ err, messageOf (packet.take n) = .undecodable err)
    (hlong : ¬(packet.length : Int) ≤ maxPayload) (hopen : l.1.isDone = false)
    (hsplit : framesOf maxPayload packet ++ tail = xs ++ ys) (h : Fed addPublication l xs l')
    (hend : l'.1.isDone = true ∨ ys = []) : ¬RoundTrip snapshot l' := by
  obtain ⟨rest, hframes⟩ := framesOf_long (by omega) hlong
  obtain ⟨err, herr⟩ := hcut maxPayload.toNat (by omega) (by omega)
  rw [hframes] at hsplit
  obtain ⟨xs', position, _, h'⟩ := h.next hopen hsplit hend
  exact fun hround => h'.undecodable herr hround.2.1

include hcreate hsane hmax in
/-- **From any place of the snapshot**: some sessions, and the end marker or nothing. -/
theorem Reading.roundTrip_iff {cs : List ClientSession} {ends : List (List UInt8)}
    (hreading : Reading snapshot begun done l) (hcs : (done ++ cs).Sublist snapshot.sessions)
    (hsmall : ∀ c ∈ snapshot.sessions, (sessionBytes c).length < 4294967296)
    (hends : ends = [] ∨ ends = [markerBytes (snapshot.marker .END)])
    (hsplit : (cs.map sessionBytes ++ ends).flatMap (framesOf maxPayload) = xs ++ ys)
    (h : Fed addPublication l xs l') (hend : l'.1.isDone = true ∨ ys = []) :
    RoundTrip snapshot l' ↔ (begun = true ∧ done ++ cs = snapshot.sessions ∧ ends ≠ []) ∧
      (∀ c ∈ cs, ((sessionBytes c).length : Int) ≤ maxPayload) ∧ 48 ≤ maxPayload := by
  induction cs generalizing done l xs with
  | nil =>
    rw [List.map_nil, List.nil_append] at hsplit
    rw [List.append_nil]
    rcases hends with rfl | rfl
    · -- nothing more comes, and the loader is not done
      obtain ⟨rfl, _⟩ := List.append_eq_nil_iff.mp hsplit.symm
      obtain rfl : l' = l := h
      refine iff_of_false (fun hround => ?_) fun hcontra => hcontra.1.2.2 rfl
      exact Bool.false_ne_true (hreading.isOpen.symm.trans hround.1)
    · have hcut := (messageOf_markerBytes hsane.endMark).2
      have hlength := length_markerBytes (snapshot.marker .END)
      rw [List.flatMap_singleton] at hsplit
      by_cases hfits : (48 : Int) ≤ maxPayload
      · rw [framesOf_short (by omega)] at hsplit
        obtain ⟨xs', position, hnil, h'⟩ := h.next hreading.isOpen hsplit hend
        obtain ⟨rfl, rfl⟩ := List.append_eq_nil_iff.mp hnil.symm
        have hlast : l' = l.onFragment addPublication ⟨markerBytes (snapshot.marker .END), position⟩ := h'
        rw [hlast, hreading.finish hsane position]
        exact ⟨fun hround => ⟨⟨hround.1, hround.2, List.cons_ne_nil _ _⟩, nofun, hfits⟩,
          fun hround => ⟨hround.1.1, hround.1.2.1⟩⟩
      · rw [← List.append_nil (framesOf maxPayload _)] at hsplit
        exact iff_of_false (not_roundTrip_of_long hmax hcut (by omega) hreading.isOpen hsplit h hend)
          fun hcontra => hfits hcontra.2.2
  | cons c cs ih =>
    have hin : c ∈ snapshot.sessions := hcs.subset (List.mem_append_right _ List.mem_cons_self)
    have hrange := hsane.sessions c hin
    obtain ⟨_, hcut⟩ := messageOf_sessionBytes hrange (hsmall c hin)
    rw [List.map_cons, List.cons_append, List.flatMap_cons] at hsplit
    by_cases hfits : ((sessionBytes c).length : Int) ≤ maxPayload
    · rw [framesOf_short hfits] at hsplit
      obtain ⟨xs', position, htail, h'⟩ := h.next hreading.isOpen hsplit hend
      have hnew : c.clusterSessionId ∉ done.map (·.clusterSessionId) := by
        have hdistinct := hsane.distinct.sublist (hcs.map _)
        rw [List.map_append, List.nodup_append] at hdistinct
        exact fun hin => hdistinct.2.2 _ hin _ List.mem_cons_self rfl
      have hreading' := hreading.session hcreate hrange (hsmall c hin) hnew position
      rw [List.append_cons] at hcs ⊢
      rw [ih hreading' hcs htail h', List.forall_mem_cons, and_iff_right hfits]
    · exact iff_of_false (not_roundTrip_of_long hmax hcut hfits hreading.isOpen hsplit h hend)
        fun hcontra => hfits (hcontra.2.1 c List.mem_cons_self)

include hcreate hsane hmax in
/-- **A whole snapshot**, from a fresh loader on: every packet has to be there and to fit. -/
theorem roundTrip_iff {agent : Agent} (hagent : agent.sessions = []) {messages : List (List UInt8)}
    (hsub : messages.Sublist snapshot.bytes) (hsmall : ∀ c ∈ snapshot.sessions, (sessionBytes c).length < 4294967296)
    (hsplit : messages.flatMap (framesOf maxPayload) = xs ++ ys)
    (h : Fed addPublication (SnapshotLoader.fresh, agent) xs l') (hend : l'.1.isDone = true ∨ ys = []) :
    RoundTrip snapshot l' ↔ messages = snapshot.bytes ∧
      (∀ c ∈ snapshot.sessions, ((sessionBytes c).length : Int) ≤ maxPayload) ∧ 48 ≤ maxPayload := by
  -- what is left of the packets, with the begin marker or without it
  obtain ⟨rest, hrest, hmessages⟩ : ∃ rest : List (List UInt8),
      rest.Sublist (snapshot.sessions.map sessionBytes ++ [markerBytes (snapshot.marker .END)]) ∧
        (messages = rest ∨ messages = markerBytes (snapshot.marker .BEGIN) :: rest) := by
    rcases List.sublist_cons_iff.mp hsub with hrest | ⟨rest, rfl, hrest⟩
    · exact ⟨messages, hrest, .inl rfl⟩
    · exact ⟨rest, hrest, .inr rfl⟩
  obtain ⟨packets, ends, rfl, hpackets, hlast⟩ := List.sublist_append_iff.mp hrest
  obtain ⟨cs, hcs, rfl⟩ := List.sublist_map_iff.mp hpackets
  have hends := List.sublist_singleton.mp hlast
  rcases hmessages with rfl | rfl
  · -- without a begin marker
    have hreading : Reading snapshot false [] (SnapshotLoader.fresh, agent) :=
      ⟨rfl, rfl, rfl, nofun, nofun, by show agent.sessions.map _ = []; rw [hagent]; rfl⟩
    rw [hreading.roundTrip_iff hcreate hsane hmax hcs hsmall hends hsplit h hend]
    refine iff_of_false (fun hcontra => Bool.false_ne_true hcontra.1.1) fun hcontra => ?_
    have hlength := congrArg List.length hcontra.1
    have hle := hcs.length_le
    have hone := hlast.length_le
    simp only [Snapshot.bytes, List.length_append, List.length_map, List.length_cons, List.length_nil] at hlength hone
    omega
  · have hcut := (messageOf_markerBytes hsane.beginMark).2
    have hlength := length_markerBytes (snapshot.marker .BEGIN)
    rw [List.flatMap_cons] at hsplit
    by_cases hfits : (48 : Int) ≤ maxPayload
    · rw [framesOf_short (by omega)] at hsplit
      obtain ⟨xs', position, htail, h'⟩ := h.next rfl hsplit hend
      rw [(Reading.start hsane hagent position).roundTrip_iff hcreate hsane hmax hcs hsmall hends htail h' hend,
        List.nil_append]
      have hall : (true = true ∧ cs = snapshot.sessions ∧ ends ≠ []) ↔
          markerBytes (snapshot.marker .BEGIN) :: (cs.map sessionBytes ++ ends) = snapshot.bytes := by
        rw [Snapshot.bytes, List.cons_inj_right]
        constructor
        · rintro ⟨_, rfl, hne⟩
          rw [hends.resolve_left hne]
        · intro heq
          have hcount := congrArg List.length heq
          have hle := hcs.length_le
          simp only [List.length_append, List.length_map, List.length_cons, List.length_nil] at hcount
          rcases hends with rfl | rfl
          · rw [List.length_nil] at hcount
            omega
          · exact ⟨rfl, hcs.eq_of_length (by rw [List.length_singleton] at hcount; omega), List.cons_ne_nil _ _⟩
      rw [hall]
      refine and_congr_right fun heq => ?_
      rw [(hall.mpr heq).2.1]
    · exact iff_of_false (not_roundTrip_of_long hmax hcut (by omega) rfl hsplit h hend)
        fun hcontra => hfits hcontra.2.2

end Steps

/-! ## The loader's polls -/

section Polls

variable (p : StreamParams) (addPublication : Nat → Option String) (agent : Agent)

/-- The loader has been handed the payloads of the slots consumed. -/
def Loaded (consumed _live : List Slot) (l : Loading) : Prop :=
  Fed addPublication (SnapshotLoader.fresh, agent) (payloads consumed) l

/-- A poll of the loader is one of an image, until it is done. -/
theorem pollSnapshot_eq : pollSnapshot p addPublication =
    Stream.polling p (onSnapshotFrame p addPublication) (fun l => l.1.isDone) (fun _ => 1) := rfl

theorem headerPosition_ok {buf : Buffer} {offset : Int} (hs : Addressable buf) (lo : 0 ≤ offset)
    (hin : offset + 32 ≤ buf.length) : ∃ position, headerPosition p.toLogParams buf offset = .ok position := by
  have hsmall : buf.length ≤ 1073741824 := hs
  have hword : i32 (offset + 20) = offset + 20 := i32_eq (by omega)
  unfold headerPosition getFrameLength
  rw [hword, Buffer.getInt32_ok hs lo (by omega), ok_bind, Buffer.getInt32_ok hs (by omega) (by omega), ok_bind]
  exact ⟨_, rfl⟩

theorem Loaded.observes : Stream.Observes p (onSnapshotFrame p addPublication) (Loaded addPublication agent) where
  stable := fun h => h
  deliver := by
    intro buf offset s slots consumed live l termBegin hrow _ _ hl
    cases s with
    | padding n | pending n =>
      refine ⟨l, rfl, ?_⟩
      rw [Loaded, payloads_snoc]
      exact Fed.append hl rfl
    | data flags payload =>
      have hin := hrow.data_inside
      have hoffset : termBegin + offset - termBegin = offset := add_sub_cancel_left _ _
      obtain ⟨position, hposition⟩ := headerPosition_ok p hrow.small hrow.offset_nonneg (by omega)
      refine ⟨l.onFragment addPublication ⟨payload, position⟩, ?_, ?_⟩
      · simp only [deliver, hoffset, onSnapshotFrame]
        rw [payload_at hrow.small hrow.offset_nonneg (by omega) hrow.at_head, ok_bind, hposition]
        rfl
      · rw [Loaded, payloads_snoc]
        exact Fed.append hl ⟨position, rfl⟩

theorem Loaded.start : Loaded addPublication agent [] [] (SnapshotLoader.fresh, agent) := rfl

theorem Loaded.sound :
    (pollSnapshot p addPublication).Sound p (SnapshotLoader.fresh, agent) (Loaded addPublication agent) := by
  rw [pollSnapshot_eq]
  exact (Loaded.observes p addPublication agent).sound (Loaded.start addPublication agent) _ _

end Polls

/-! ## The taker -/

variable {s t : SnapshotLog}

namespace SnapshotLog

variable {p : StreamParams} {addPublication : Nat → Option String} {agent : Agent} {packets : List (List UInt8)}

/-- The stream has been written by the taker alone: of the packets that do not remain, its messages are all
but those that the taker was too late for. -/
structure Written (p : StreamParams) (addPublication : Nat → Option String) (agent : Agent)
    (packets : List (List UInt8)) (s : SnapshotLog) : Prop where
  stream : (Stream.system p (pollSnapshot p addPublication) (SnapshotLoader.fresh, agent)).Reachable s.stream
  split : ∃ done rest, packets = done ++ rest ∧ s.taker.remaining = rest.map .ok ∧ s.stream.messages.Sublist done ∧
    (s.taker.late = false ↔ s.stream.messages = done)
  decided : ∀ r ∈ s.stream.records, r.isPending = false
  ret : s.taker.ret ≤ 0

theorem Written.initial : Written p addPublication agent packets (initial p (packets.map .ok) agent) where
  stream := .start rfl
  split := ⟨[], packets, rfl, rfl, List.nil_sublist _, iff_of_true rfl rfl⟩
  decided := fun _ hr => nomatch hr
  ret := Int.le_refl 0

/-- A step that neither records nor sends. -/
theorem Written.keep (h : Written p addPublication agent packets s)
    (hstream : (Stream.system p (pollSnapshot p addPublication) (SnapshotLoader.fresh, agent)).Reachable t.stream)
    (hrecords : t.stream.records = s.stream.records) (hremaining : t.taker.remaining = s.taker.remaining)
    (hlate : t.taker.late = s.taker.late) (hret : t.taker.ret ≤ 0) : Written p addPublication agent packets t := by
  refine ⟨hstream, ?_, ?_, hret⟩
  · rw [hremaining, hlate, Stream.State.messages, hrecords]
    exact h.split
  · rw [hrecords]
    exact h.decided

/-- A step of the loader or the driver is one of the stream. -/
theorem Written.onStream {a : Stream.Action} (h : Written p addPublication agent packets s)
    (hstep : s.onStream p addPublication a = .ok t) (hadmissible : a.Admissible p s.stream)
    (hdriver : Stream.Driver p s.stream t.stream a)
    (hrecords : ∀ u, Stream.step p (pollSnapshot p addPublication) s.stream a = .ok u → u.records = s.stream.records) :
    Written p addPublication agent packets t := by
  obtain ⟨u, hu, ht⟩ := ok_of_bind hstep
  cases ht
  exact h.keep (h.stream.step a ⟨hadmissible, hu, hdriver⟩) (hrecords u hu) rfl rfl h.ret

/-- A message is offered: it is refused for now, or it is in the log. -/
theorem offer_ok {bytes : List UInt8} {s : Stream.State Loading}
    (hs : (Stream.system p (pollSnapshot p addPublication) (SnapshotLoader.fresh, agent)).Reachable s)
    (hmax : (bytes.length : Int) ≤ p.maxOffer) :
    i32 bytes.length = bytes.length ∧ Source (makeBuffer bytes) 0 bytes.length ∧
      sourceBytes (makeBuffer bytes) 0 bytes.length = bytes ∧
      ∀ r, Stream.offer p s.publication (makeBuffer bytes) 0 bytes.length none = .ok r → r.value ≠ 0 := by
  have hreq := Stream.requires_message p (Int.natCast_nonneg bytes.length) hmax
  have hsmall := Int.lt_of_le_of_lt (Int.le_trans hreq.length_le hreq.le) (Stream.maxRequired_lt p)
  have hword : i32 bytes.length = bytes.length := i32_eq ⟨by omega, hsmall⟩
  have hlength : (makeBuffer bytes).length = bytes.length := hword
  have hsrc : Source (makeBuffer bytes) 0 bytes.length := by
    refine ⟨by rw [hlength]; exact hsmall, Int.le_refl 0, Int.natCast_nonneg _, ?_⟩
    rw [hlength, Int.zero_add]
  refine ⟨hword, hsrc, ?_, ?_⟩
  · rw [sourceBytes, Int.toNat_natCast]
    exact read_write_self _ _ _
  · intro r hr
    obtain ⟨n, off, entries, consumed, live, h⟩ := Stream.reachable_inv (Loaded.sound p addPublication agent) hs
    rcases (Stream.offer_cases h.logAt h.room hsrc hmax none).of_ok hr with hr | hr | hr
    · exact ne_of_lt hr.value
    · have hlo := hreq.pos
      have hn := Int.mul_nonneg h.logAt.n_nonneg (Int.le_of_lt p.termLength_pos)
      have hoff := h.logAt.off_nonneg
      rw [hr.value]
      omega
    · exact ne_of_lt hr.value

/-- A round of the taker. -/
theorem Written.attempt {expired : Bool} (h : Written p addPublication agent packets s)
    (hmax : ∀ bytes ∈ packets, (bytes.length : Int) ≤ p.maxOffer)
    (hstep : s.attempt p expired = .ok t) (hdriver : Driver p s t (.attempt expired)) :
    Written p addPublication agent packets t := by
  obtain ⟨done, rest, hsplit, hremaining, hsub, hlate⟩ := h.split
  unfold SnapshotLog.attempt at hstep
  rw [hremaining] at hstep
  cases rest with
  | nil =>
    obtain rfl : s = t := by
      cases herr : s.taker.err with
      | none | some err =>
        rw [herr] at hstep
        exact Except.ok.inj hstep
    exact h
  | cons bytes rest =>
    rw [List.map_cons] at hstep
    cases herr : s.taker.err with
    | some err =>
      rw [herr] at hstep
      cases hstep
      exact h
    | none =>
      rw [herr] at hstep
      simp only at hstep
      cases expired with
      | true =>
        rw [if_pos rfl] at hstep
        cases hstep
        by_cases hzero : s.taker.ret = 0
        · -- the message is left out
          have htaker : s.taker.timedOut = ⟨rest.map .ok, 0, none, true⟩ := by
            simp only [SnapshotTaker.timedOut, SnapshotTaker.returned, hzero, lt_irrefl, if_false, hremaining, herr,
              decide_true, Bool.or_true]
            rfl
          rw [htaker]
          refine ⟨h.stream, ⟨done ++ [bytes], rest, by rw [hsplit, List.append_cons], rfl,
            hsub.trans (List.sublist_append_left _ _), ?_⟩, h.decided, Int.le_refl 0⟩
          refine iff_of_false Bool.noConfusion fun hall => ?_
          have hle := hsub.length_le
          have hall' : s.stream.messages = done ++ [bytes] := hall
          rw [hall', List.length_append, List.length_singleton] at hle
          omega
        · have hnegative : s.taker.ret < 0 := lt_of_le_of_ne h.ret hzero
          refine h.keep h.stream rfl ?_ ?_ ?_ <;>
            simp only [SnapshotTaker.timedOut, SnapshotTaker.returned, if_pos hnegative, decide_eq_false hzero,
              Bool.or_false, h.ret]
      | false =>
        have hin : bytes ∈ packets := by
          rw [hsplit]
          exact List.mem_append_right _ List.mem_cons_self
        obtain ⟨hword, hsrc, hbytes, hvalue⟩ := offer_ok h.stream (hmax bytes hin)
        rw [if_neg Bool.false_ne_true, hword, hbytes] at hstep
        obtain ⟨r, hr, ht⟩ := ok_of_bind hstep
        cases ht
        have hvalue := hvalue r hr
        have hstream : Stream.step p (pollSnapshot p addPublication) s.stream
            (.offer (makeBuffer bytes) 0 bytes.length none) = .ok (s.stream.returned r (.message bytes)) := by
          rw [Stream.step, hr, ok_bind, hbytes]
          rfl
        have hadmissible : Stream.Action.Admissible p s.stream (.offer (makeBuffer bytes) 0 bytes.length none) :=
          ⟨hsrc, hmax bytes hin⟩
        have hclean : Stream.Driver p s.stream (s.stream.returned r (.message bytes))
            (.offer (makeBuffer bytes) 0 bytes.length none) := hdriver rfl
        have hreach := h.stream.step _ ⟨hadmissible, hstream, hclean⟩
        by_cases haccepted : 0 < r.value
        · -- the message is in the log, and the taker goes on to the next one
          have hrecords : (s.stream.returned r (.message bytes)).records =
              s.stream.records ++ [⟨r.value, .message bytes⟩] := by
            rw [Stream.State.returned, if_pos haccepted]
          have htaker : s.taker.offered r.value = { s.taker with remaining := s.taker.remaining.tail, ret := 0 } := by
            unfold SnapshotTaker.offered SnapshotTaker.returned Publication.notConnected Publication.backPressured
              Publication.adminAction
            rw [if_neg (by omega), if_neg (by omega)]
          have hmessages : (s.stream.returned r (.message bytes)).messages = s.stream.messages ++ [bytes] := by
            rw [Stream.State.messages, hrecords, List.filterMap_append]
            rfl
          refine ⟨hreach, ⟨done ++ [bytes], rest, by rw [hsplit, List.append_cons], ?_, ?_, ?_⟩, ?_, ?_⟩
          · show (s.taker.offered r.value).remaining = _
            rw [htaker, hremaining]
            rfl
          · show (s.stream.returned r (.message bytes)).messages.Sublist _
            rw [hmessages]
            exact hsub.append_right [bytes]
          · show (s.taker.offered r.value).late = false ↔ (s.stream.returned r (.message bytes)).messages = _
            rw [htaker, hmessages, List.append_left_inj]
            exact hlate
          · intro record hrecord
            rw [hrecords, List.mem_append] at hrecord
            rcases hrecord with hrecord | hrecord
            · exact h.decided record hrecord
            · rw [List.mem_singleton.mp hrecord]
              rfl
          · show (s.taker.offered r.value).ret ≤ 0
            rw [htaker]
        · have hnegative : r.value < 0 := lt_of_le_of_ne (not_lt.mp haccepted) hvalue
          have htaker : (s.taker.offered r.value).remaining = s.taker.remaining ∧
              (s.taker.offered r.value).late = s.taker.late ∧ (s.taker.offered r.value).ret ≤ 0 := by
            unfold SnapshotTaker.offered SnapshotTaker.returned
            rw [if_pos hnegative]
            split
            · exact ⟨rfl, rfl, Int.le_of_lt hnegative⟩
            · exact ⟨rfl, rfl, h.ret⟩
          refine h.keep hreach ?_ htaker.1 htaker.2.1 htaker.2.2
          show (s.stream.returned r (.message bytes)).records = _
          rw [Stream.State.returned, if_neg haccepted]

/-- **In every run** the log holds what the taker has offered. -/
theorem written_of_reachable (hmax : ∀ bytes ∈ packets, (bytes.length : Int) ≤ p.maxOffer)
    (hs : (system p addPublication (packets.map .ok) agent).Reachable s) :
    Written p addPublication agent packets s := by
  refine hs.invariant ?_ ?_
  · rintro s rfl
    exact Written.initial
  · rintro s a t h ⟨hstep, hdriver⟩
    cases a with
    | attempt expired => exact h.attempt hmax hstep hdriver
    | poll =>
      refine h.onStream hstep trivial trivial fun u hu => ?_
      obtain ⟨⟨count, image, state⟩, _, hu⟩ := ok_of_bind hu
      cases hu
      rfl
    | driver limit isConnected | clean index lo hi =>
      refine h.onStream hstep trivial hdriver fun u hu => ?_
      cases hu
      rfl

/-- The loader polls a number of times. -/
def polls (p : StreamParams) (addPublication : Nat → Option String) : Nat → SnapshotLog → Except Stop SnapshotLog
  | 0, s => .ok s
  | n + 1, s => do
    let t ← s.step p addPublication .poll
    polls p addPublication n t

theorem polls_eq {n : Nat} {u : Stream.State Loading}
    (h : Stream.pollEach p (pollSnapshot p addPublication) (List.replicate n 1) s.stream = .ok u) :
    polls p addPublication n s = .ok { s with stream := u } := by
  induction n generalizing s with
  | zero =>
    cases h
    rfl
  | succ n ih =>
    rw [List.replicate_succ, Stream.pollEach, List.foldlM_cons] at h
    obtain ⟨v, hv, hu⟩ := ok_of_bind h
    rw [polls, step, onStream, hv]
    exact ih (s := { s with stream := v }) hu

end SnapshotLog

/-- A packet of the snapshot is the bytes of a marker or of a session. -/
theorem Snapshot.forall_mem_bytes {snapshot : Snapshot} {bound : Int} (hmarker : 48 ≤ bound)
    (hsessions : ∀ c ∈ snapshot.sessions, ((sessionBytes c).length : Int) ≤ bound) :
    ∀ bytes ∈ snapshot.bytes, (bytes.length : Int) ≤ bound := by
  intro bytes hbytes
  rw [Snapshot.bytes, List.mem_cons, List.mem_append, List.mem_map, List.mem_singleton] at hbytes
  rcases hbytes with rfl | ⟨c, hc, rfl⟩ | rfl
  · rw [length_markerBytes]
    exact hmarker
  · exact hsessions c hc
  · rw [length_markerBytes]
    exact hmarker

/-- **A snapshot is loaded as it was taken exactly if each of its packets was offered and fits into one
frame.** Once the taker has come to its end, the loader comes to its own after so many polls; it has then
recorded the application version and the time unit and added exactly the sessions of the snapshot, without
an error, if and only if the taker's time was never up before it had offered a message, and a marker (48
bytes) and every session (28 bytes, its channel and its principal) are no longer than the largest payload
of a frame. -/
theorem snapshot_roundtrip_iff (p : StreamParams) {addPublication : Nat → Option String}
    (hcreate : ∀ n, addPublication n = none) {agent : Agent} (hagent : agent.sessions = []) {snapshot : Snapshot}
    (hsane : snapshot.Sane)
    (hmax : ∀ c ∈ snapshot.sessions,
      (28 + c.responseChannel.length + c.encodedPrincipal.length : Int) ≤ p.maxOffer)
    (rangeChecking : Bool) {s : SnapshotLog}
    (hs : (SnapshotLog.system p addPublication (snapshot.packets rangeChecking) agent).Reachable s)
    (htaken : s.taker.remaining = []) :
    ∃ count, ∀ n, count ≤ n → ∃ t, SnapshotLog.polls p addPublication n s = .ok t ∧
      (RoundTrip snapshot t.stream.consumer ↔
        s.taker.late = false ∧ 48 ≤ p.maxPayloadLength ∧ ∀ c ∈ snapshot.sessions,
          (28 + c.responseChannel.length + c.encodedPrincipal.length : Int) ≤ p.maxPayloadLength) := by
  have hlength : ∀ c : ClientSession, ((sessionBytes c).length : Int) =
      28 + c.responseChannel.length + c.encodedPrincipal.length := by
    intro c
    rw [length_sessionBytes]
    push_cast
    rfl
  simp only [← hlength] at hmax ⊢
  have hmarker : 48 ≤ p.maxOffer := by
    have hge := p.termLength_ge
    rw [StreamParams.maxOffer, p.maxMessageLength_eq]
    omega
  rw [hsane.packets] at hs
  have hwritten := SnapshotLog.written_of_reachable (Snapshot.forall_mem_bytes hmarker hmax) hs
  -- the taker is through with every packet
  obtain ⟨done, rest, hsplit, hremaining, hsub, hlate⟩ := hwritten.split
  obtain rfl : rest = [] := by
    rw [htaken] at hremaining
    exact List.map_eq_nil_iff.mp hremaining.symm
  obtain rfl : snapshot.bytes = done := by rw [hsplit, List.append_nil]
  obtain ⟨n, off, entries, consumed, live, h⟩ := Stream.reachable_inv (Loaded.sound p addPublication agent) hwritten.stream
  have hcommitted : Stream.Committed live := by
    have hdecided := hwritten.decided
    rw [h.records] at hdecided
    have hall : Stream.Committed (Stream.slotsOf p.maxPayloadLength entries) := Stream.committed_of_records hdecided
    rw [h.split] at hall
    exact hall.right
  refine ⟨live.length, fun count hcount => ?_⟩
  obtain ⟨u, consumed', live', hpolls, h', hend⟩ := (Loaded.observes p addPublication agent).polls_to_end
    (fun l => l.1.isDone) (fun _ => 1) (fun _ _ => Int.one_pos) h (Loaded.start addPublication agent) hcommitted
    (show live.length ≤ (List.replicate count (1 : Int)).length by rw [List.length_replicate]; exact hcount)
    (fun l hl => by rw [(List.mem_replicate.mp hl).2]; exact Int.one_pos)
  refine ⟨{ s with stream := u }, SnapshotLog.polls_eq hpolls, ?_⟩
  have hframes : s.stream.messages.flatMap (framesOf p.maxPayloadLength) = payloads consumed' ++ payloads live' := by
    rw [h.messages_eq, ← payloads_slotsOf, h'.split, payloads, List.filterMap_append]
    rfl
  have hstop : u.consumer.1.isDone = true ∨ payloads live' = [] := by
    rcases hend with rfl | hdone
    · exact .inr rfl
    · exact .inl hdone
  have hpayload := p.maxPayloadLength_ge
  have hsmall : ∀ c ∈ snapshot.sessions, (sessionBytes c).length < 4294967296 := by
    intro c hc
    have hreq := Stream.requires_message p (Int.natCast_nonneg _) (hmax c hc)
    have hlt := Int.lt_of_le_of_lt (Int.le_trans hreq.length_le hreq.le) (Stream.maxRequired_lt p)
    omega
  rw [roundTrip_iff hcreate hsane (by omega) hagent hsub hsmall hframes h'.consumer hstop, hlate]
  exact and_congr_right fun _ => and_comm

/-! ## Executed runs -/

namespace SnapshotLog

/-- The conditions of a step that can be computed: a taker that leaves room in the term, and a limit that
the driver may set. -/
def isCalm (p : StreamParams) (s t : SnapshotLog) : Action → Bool
  | .attempt _ => Stream.leavesRoom p s.stream t.stream
  | .poll => true
  | .driver limit _ => limit ≤ s.stream.position + p.termLength / 2
  | .clean _ _ _ => false

def calmStep (p : StreamParams) (addPublication : Nat → Option String) (s : SnapshotLog) (a : Action) :
    Option SnapshotLog :=
  match s.step p addPublication a with
  | .ok t => if isCalm p s t a then some t else none
  | .error _ => none

theorem next_of_calmStep {p : StreamParams} {addPublication : Nat → Option String} {a : Action}
    (packets : List (Except CodecError (List UInt8))) (agent : Agent) (h : calmStep p addPublication s a = some t) :
    (system p addPublication packets agent).next s a t := by
  unfold calmStep at h
  cases hstep : s.step p addPublication a with
  | error e =>
    rw [hstep] at h
    cases h
  | ok t' =>
    simp only [hstep, Option.ite_none_right_eq_some, Option.some.injEq] at h
    obtain ⟨hcalm, rfl⟩ := h
    cases a with
    | attempt expired => exact ⟨hstep, fun _ => Stream.cleanAhead_of_leavesRoom hcalm⟩
    | poll => exact ⟨hstep, trivial⟩
    | driver limit isConnected =>
      have hlimit : limit ≤ s.stream.position + p.termLength / 2 := of_decide_eq_true hcalm
      exact ⟨hstep, hlimit⟩
    | clean index lo hi => cases hcalm

/-- An executed run is a run. -/
theorem exists_reachable_of_calm (p : StreamParams) (addPublication : Nat → Option String)
    (packets : List (Except CodecError (List UInt8))) (agent : Agent) (actions : List Action) (q : SnapshotLog → Bool)
    (h : (System.exec (calmStep p addPublication) (initial p packets agent) actions).any q = true) :
    ∃ t, (system p addPublication packets agent).Reachable t ∧ q t = true := by
  obtain ⟨t, ht, hq⟩ := System.exists_reachable (· = initial p packets agent) (calmStep p addPublication) rfl actions q h
  refine ⟨t, ?_, hq⟩
  refine ht.invariant (fun s hs => .start hs) ?_
  exact fun s a t hs hstep => hs.step a (next_of_calmStep packets agent hstep)

end SnapshotLog

/-- Frames with payloads of 64 bytes. -/
def narrowLog : StreamParams where
  toLogParams := { StreamParams.smallest.toLogParams with
    mtu := 96
    mtu_aligned := by decide
    mtu_gt := by decide
    mtu_lt := by decide }
  sessionID := 7
  streamID := 10
  sessionID_range := StreamParams.smallest.sessionID_range

/-- A snapshot of one session. -/
def oneSession (encodedPrincipal : List UInt8) : Snapshot := ⟨64, 3, .MICROS, 65536, [⟨4, 1, [97, 98], encodedPrincipal⟩]⟩

theorem oneSession_sane (encodedPrincipal : List UInt8) : (oneSession encodedPrincipal).Sane where
  beginMark := rfl
  endMark := rfl
  sessions := by
    intro c hc
    rw [List.mem_singleton.mp hc]
    rfl
  distinct := List.nodup_cons.mpr ⟨List.not_mem_nil, List.nodup_nil⟩

/-- The driver connects the publication, and the taker offers its three messages. -/
def takeThree : List SnapshotLog.Action :=
  [.attempt false, .driver 32768 true, .attempt false, .attempt false, .attempt false]

/-- A taker whose time is up before it has offered the session. -/
def takeLate : List SnapshotLog.Action := [.driver 32768 true, .attempt false, .attempt true, .attempt false]

/-- A short session is loaded, unless the taker was too late for it. -/
theorem snapshot_roundtrip_iff_short :
    (∃ s, (SnapshotLog.system narrowLog (fun _ => none) ((oneSession [1, 2, 3]).packets true) Agent.initial).Reachable s ∧
      s.taker.remaining = [] ∧
      ∃ count, ∀ n, count ≤ n → ∃ t, SnapshotLog.polls narrowLog (fun _ => none) n s = .ok t ∧
        RoundTrip (oneSession [1, 2, 3]) t.stream.consumer) ∧
    ∃ s, (SnapshotLog.system narrowLog (fun _ => none) ((oneSession [1, 2, 3]).packets true) Agent.initial).Reachable s ∧
      s.taker.remaining = [] ∧
      ∃ count, ∀ n, count ≤ n → ∃ t, SnapshotLog.polls narrowLog (fun _ => none) n s = .ok t ∧
        ¬RoundTrip (oneSession [1, 2, 3]) t.stream.consumer := by
  have hmax : ∀ c ∈ (oneSession [1, 2, 3]).sessions,
      (28 + c.responseChannel.length + c.encodedPrincipal.length : Int) ≤ narrowLog.maxOffer := by decide +kernel
  constructor
  · obtain ⟨s, hs, hq⟩ := SnapshotLog.exists_reachable_of_calm narrowLog (fun _ => none)
      ((oneSession [1, 2, 3]).packets true) Agent.initial takeThree
      (fun s => s.taker.remaining.isEmpty && s.taker.late = false) (by decide +kernel)
    simp only [Bool.and_eq_true, List.isEmpty_iff, decide_eq_true_eq] at hq
    obtain ⟨count, hcount⟩ := snapshot_roundtrip_iff narrowLog (fun _ => rfl) rfl (oneSession_sane [1, 2, 3]) hmax true hs
      hq.1
    refine ⟨s, hs, hq.1, count, fun n hn => ?_⟩
    obtain ⟨t, ht, hround⟩ := hcount n hn
    exact ⟨t, ht, hround.mpr ⟨hq.2, by decide +kernel⟩⟩
  · obtain ⟨s, hs, hq⟩ := SnapshotLog.exists_reachable_of_calm narrowLog (fun _ => none)
      ((oneSession [1, 2, 3]).packets true) Agent.initial takeLate
      (fun s => s.taker.remaining.isEmpty && s.taker.late = true) (by decide +kernel)
    simp only [Bool.and_eq_true, List.isEmpty_iff, decide_eq_true_eq] at hq
    obtain ⟨count, hcount⟩ := snapshot_roundtrip_iff narrowLog (fun _ => rfl) rfl (oneSession_sane [1, 2, 3]) hmax true hs
      hq.1
    refine ⟨s, hs, hq.1, count, fun n hn => ?_⟩
    obtain ⟨t, ht, hround⟩ := hcount n hn
    exact ⟨t, ht, fun hcontra => Bool.false_ne_true ((hround.mp hcontra).1.symm.trans hq.2)⟩

/-- A session with a principal of 40 bytes takes two frames of 64 bytes, and the loader stops at the first
one with an error. -/
theorem snapshot_cut_off :
    ∃ s, (SnapshotLog.system narrowLog (fun _ => none) ((oneSession (List.replicate 40 5)).packets true)
        Agent.initial).Reachable s ∧
      s.taker.late = false ∧ s.taker.remaining = [] ∧ s.taker.err = none ∧
      s.stream.consumer.1.isDone = true ∧ s.stream.consumer.1.err = some (.codec .eof) ∧
      s.stream.consumer.2.sessions = [] ∧ ¬RoundTrip (oneSession (List.replicate 40 5)) s.stream.consumer := by
  obtain ⟨s, hs, hq⟩ := SnapshotLog.exists_reachable_of_calm narrowLog (fun _ => none)
    ((oneSession (List.replicate 40 5)).packets true) Agent.initial (takeThree ++ [.poll, .poll, .poll, .poll, .poll])
    (fun s => s.taker.late = false && (s.taker.remaining.isEmpty && (s.taker.err = none && (s.stream.consumer.1.isDone = true &&
      (s.stream.consumer.1.err = some (.codec .eof) && (s.stream.consumer.2.sessions = [] &&
        !decide (RoundTrip (oneSession (List.replicate 40 5)) s.stream.consumer))))))) (by decide +kernel)
  simp only [Bool.and_eq_true, List.isEmpty_iff, decide_eq_true_eq, Bool.not_eq_true', decide_eq_false_iff_not] at hq
  exact ⟨s, hs, hq⟩

end AeronGo.Cluster.Service
