import AeronGo.Cluster.Snapshot

/-!
# Malformed snapshots

What a fragment says (`messageOf`) and when it is bad at the point where it comes (`isBad`), apart from
what the loader does with it. A good fragment that is not the end keeps the loader going without an
error; a bad one leaves an error (`onFragment_bad`), and all but a marker of another type stop the
loader (`load_of_bad`).

`loadSnapshot` looks only at whether the loader is done and never at its error, so a malformed snapshot
is refused exactly when it is not read at all (`malformed_refused_iff`).
-/

namespace AeronGo.Cluster.Service

open Machine Atomic Codecs

/-! ## Messages -/

inductive SnapshotMessage where
  | marker (marker : SnapshotMarker)
  | session (session : ClientSession)
  | undecodable (error : CodecError)
  | skipped
deriving DecidableEq, Repr

/-- The body of a message, by the template of its header. -/
def messageIn (header : MessageHeader) (body : List UInt8) : SnapshotMessage :=
  if header.schemaId ≠ schemaId then .skipped
  else if header.templateId = SnapshotMarker.templateId then
    match SnapshotMarker.decode header.version header.blockLength true body with
    | .error err => .undecodable err
    | .ok (marker, _) => .marker marker
  else if header.templateId = ClientSession.templateId then
    match ClientSession.decode header.version header.blockLength true body with
    | .error err => .undecodable err
    | .ok (session, _) => .session session
  else .skipped

/-- What a fragment says, taken as a whole message. -/
def messageOf (payload : List UInt8) : SnapshotMessage :=
  if payload.length < sbeHeaderLength then .skipped
  else
    match MessageHeader.decode payload with
    | .error _ => .skipped
    | .ok (header, body) => messageIn header body

/-- What the loader does with a message. -/
def Loading.onMessage (addPublication : Nat → Option String) (l : Loading) (position : Int) :
    SnapshotMessage → Loading
  | .marker marker => (l.1.onMarker position marker, l.2)
  | .session session => l.onSession addPublication session
  | .undecodable err => (l.1.stop (.codec err), l.2)
  | .skipped => l

section Loader

variable {addPublication : Nat → Option String} {l : Loading} {f : SnapshotFragment}

/-- The loader acts on what the fragment says. -/
theorem Loading.onFragment_eq :
    l.onFragment addPublication f = l.onMessage addPublication f.position (messageOf f.payload) := by
  unfold Loading.onFragment messageOf
  split
  · rfl
  · cases MessageHeader.decode f.payload with
    | error err => rfl
    | ok pair =>
      obtain ⟨header, body⟩ := pair
      show _ = Loading.onMessage addPublication l f.position (messageIn header body)
      unfold messageIn
      simp only
      split
      · rfl
      · split
        · cases SnapshotMarker.decode header.version header.blockLength true body <;> rfl
        · split
          · cases ClientSession.decode header.version header.blockLength true body <;> rfl
          · rfl

/-! ## Good and bad messages -/

/-- A marker of another kind of snapshot. -/
def isForeign : SnapshotMessage → Bool
  | .marker marker => marker.typeId ≠ snapshotTypeId
  | _ => false

/-- A message that has no place in a snapshot at this point. -/
def isBad (addPublication : Nat → Option String) (l : Loading) : SnapshotMessage → Bool
  | .marker marker => marker.typeId ≠ snapshotTypeId ||
      match marker.mark with
      | .BEGIN => l.1.inSnapshot
      | .END => !l.1.inSnapshot
      | _ => true
  | .session _ => (addPublication l.2.publicationAttempts).isSome
  | .undecodable _ => true
  | .skipped => false

/-- An end marker inside a snapshot. -/
def isEnd (l : Loading) : SnapshotMessage → Bool
  | .marker marker => marker.typeId = snapshotTypeId && marker.mark = .END && l.1.inSnapshot
  | _ => false

/-- The number of messages up to the first bad one, if it comes before a well-placed end. -/
def firstBad (addPublication : Nat → Option String) : Loading → List SnapshotFragment → Option Nat
  | _, [] => none
  | l, f :: rest =>
    if isBad addPublication l (messageOf f.payload) then some 1
    else if isEnd l (messageOf f.payload) then none
    else (firstBad addPublication (l.onFragment addPublication f) rest).map (· + 1)

/-- A session whose publication is created is added. -/
theorem Loading.onSession_of_created {session : ClientSession} (h : addPublication l.2.publicationAttempts = none) :
    (l.onSession addPublication session).1 = l.1 := by
  simp only [Loading.onSession, Agent.newContainerClientSession, h]

theorem Loading.onSession_of_refused {session : ClientSession} {err : String}
    (h : addPublication l.2.publicationAttempts = some err) :
    (l.onSession addPublication session).1 = l.1.stop (.text err) := by
  simp only [Loading.onSession, Agent.newContainerClientSession, h]

/-- A good message that is not the end leaves the loader's flags as they are. -/
theorem Loading.onMessage_good {m : SnapshotMessage} (position : Int) (hgood : isBad addPublication l m = false)
    (hend : isEnd l m = false) :
    (l.onMessage addPublication position m).1.isDone = l.1.isDone ∧
      (l.onMessage addPublication position m).1.err = l.1.err := by
  cases m with
  | skipped => exact ⟨rfl, rfl⟩
  | undecodable err => cases hgood
  | session session =>
    have hcreated : addPublication l.2.publicationAttempts = none := by
      simpa [isBad] using hgood
    rw [Loading.onMessage, Loading.onSession_of_created hcreated]
    exact ⟨rfl, rfl⟩
  | marker marker =>
    simp only [isBad, Bool.or_eq_false_iff, decide_eq_false_iff_not, not_not] at hgood
    obtain ⟨htype, hmark⟩ := hgood
    simp only [Loading.onMessage, SnapshotLoader.onMarker, htype, ne_eq, not_true, if_false]
    cases hm : marker.mark with
    | BEGIN =>
      rw [hm] at hmark
      simp only [hmark, Bool.false_eq_true, if_false, and_self]
    | END =>
      rw [hm] at hmark
      simp only [isEnd, htype, hm, decide_true, Bool.true_and] at hend
      rw [hend] at hmark
      cases hmark
    | SECTION | nullValue | unknown _ =>
      rw [hm] at hmark
      cases hmark

/-- A bad message leaves an error, and unless it is foreign the loader is done. -/
theorem Loading.onMessage_bad {m : SnapshotMessage} (position : Int) (hbad : isBad addPublication l m = true) :
    (l.onMessage addPublication position m).1.err ≠ none ∧
      (isForeign m = false → (l.onMessage addPublication position m).1.isDone = true) := by
  cases m with
  | skipped => cases hbad
  | undecodable err => exact ⟨Option.some_ne_none _, fun _ => rfl⟩
  | session session =>
    obtain ⟨err, herr⟩ := Option.isSome_iff_exists.mp hbad
    rw [Loading.onMessage, Loading.onSession_of_refused herr]
    exact ⟨Option.some_ne_none _, fun _ => rfl⟩
  | marker marker =>
    simp only [Loading.onMessage, SnapshotLoader.onMarker]
    by_cases htype : marker.typeId = snapshotTypeId
    · simp only [isBad, htype, ne_eq, not_true, decide_false, Bool.false_or] at hbad
      simp only [htype, ne_eq, not_true, if_false]
      cases hm : marker.mark with
      | BEGIN =>
        rw [hm] at hbad
        simp only [hbad, if_true]
        exact ⟨Option.some_ne_none _, fun _ => rfl⟩
      | END =>
        rw [hm] at hbad
        rw [Bool.not_eq_true'] at hbad
        simp only [hbad, Bool.false_eq_true, if_false]
        exact ⟨Option.some_ne_none _, fun _ => rfl⟩
      | SECTION | nullValue | unknown _ => exact ⟨Option.some_ne_none _, fun _ => rfl⟩
    · rw [if_pos htype]
      refine ⟨Option.some_ne_none _, fun hforeign => ?_⟩
      simp only [isForeign, decide_eq_false_iff_not, not_not] at hforeign
      exact absurd hforeign htype

/-! ## The loop -/

theorem Loading.load_of_done {fragments : List SnapshotFragment} (h : l.1.isDone = true) :
    l.load addPublication fragments = (l, fragments) := by
  cases fragments with
  | nil => rfl
  | cons f rest => rw [Loading.load, if_pos h]

/-- **The loader stops at the first bad message**, unless that is a marker of another type. -/
theorem Loading.load_of_bad {fragments : List SnapshotFragment} {n : Nat} (hdone : l.1.isDone = false)
    (hbad : firstBad addPublication l fragments = some n) :
    ∃ before bad after, fragments = before ++ bad :: after ∧ before.length + 1 = n ∧
      (isForeign (messageOf bad.payload) = false →
        ∃ l' : Loading, l.load addPublication fragments = (l', after) ∧ l'.1.isDone = true ∧ l'.1.err ≠ none) := by
  induction fragments generalizing l n with
  | nil => cases hbad
  | cons f rest ih =>
    have hgo : l.load addPublication (f :: rest) = (l.onFragment addPublication f).load addPublication rest := by
      rw [Loading.load, if_neg (by rw [hdone]; exact Bool.false_ne_true)]
    rw [firstBad] at hbad
    split at hbad
    next hthis =>
      cases hbad
      refine ⟨[], f, rest, rfl, rfl, fun hforeign => ?_⟩
      obtain ⟨herr, hstop⟩ := Loading.onMessage_bad f.position hthis
      rw [← Loading.onFragment_eq] at herr hstop
      refine ⟨l.onFragment addPublication f, ?_, hstop hforeign, herr⟩
      rw [hgo, Loading.load_of_done (hstop hforeign)]
    next hthis =>
      split at hbad
      · cases hbad
      next hend =>
        obtain ⟨k, hk, rfl⟩ := Option.map_eq_some_iff.mp hbad
        obtain ⟨hkeep, _⟩ := Loading.onMessage_good f.position (Bool.eq_false_iff.mpr hthis) (Bool.eq_false_iff.mpr hend)
        rw [← Loading.onFragment_eq, hdone] at hkeep
        obtain ⟨before, bad, after, rfl, rfl, hstop⟩ := ih hkeep hk
        refine ⟨f :: before, bad, after, rfl, rfl, fun hforeign => ?_⟩
        rw [hgo]
        exact hstop hforeign

end Loader

/-! ## Refusal -/

section Refusal

variable (addPublication : Nat → Option String) (o : Options) (agent : Agent) (setup : Option String)
  (fragments : List SnapshotFragment)

/-- How many messages the loader processes. -/
def processed : Nat :=
  match setup with
  | some _ => 0
  | none => fragments.length - (Loading.load addPublication (SnapshotLoader.fresh, agent) fragments).2.length

/-- An error comes back, the service is not called, and the loader goes no further than a number of
messages. -/
def Refused (n : Nat) : Prop :=
  (∃ err after, loadSnapshot addPublication o agent setup fragments = .returned (some err) after ∧
    after.events = agent.events) ∧
  processed addPublication agent setup fragments ≤ n

/-- Once the snapshot is read no error comes back. -/
theorem loadSnapshot_no_error (err : String) (after : Agent) :
    loadSnapshot addPublication o agent none fragments ≠ .returned (some err) after := by
  unfold loadSnapshot finishLoad
  simp only
  split
  · split <;> simp
  · simp

/-- What happens instead: past a bad message that stops the loader, `loadSnapshot` goes on to the version
check and the start of the service. -/
theorem loadSnapshot_of_stopped {before after : List SnapshotFragment} {bad : SnapshotFragment} {l : Loading}
    (hload : Loading.load addPublication (SnapshotLoader.fresh, agent) (before ++ bad :: after) = (l, after))
    (hdone : l.1.isDone = true) :
    processed addPublication agent none (before ++ bad :: after) = before.length + 1 ∧
      loadSnapshot addPublication o agent none (before ++ bad :: after) = finishLoad o l := by
  constructor
  · simp only [processed, hload, List.length_append, List.length_cons]
    omega
  · simp only [loadSnapshot, hload, hdone, if_true]

/-- **A malformed snapshot is refused exactly when it is not read**: `loadSnapshot` gives back an error
only if connecting to the archive or subscribing to the replay fails. If the snapshot is read, a bad
message that is no marker of another type does stop the loader with an error, and the service is started
all the same once the versions agree. -/
theorem malformed_refused_iff {n : Nat}
    (hbad : firstBad addPublication (SnapshotLoader.fresh, agent) fragments = some n) :
    (Refused addPublication o agent setup fragments n ↔ ∃ err, setup = some err) ∧
    ∃ before bad after, fragments = before ++ bad :: after ∧ before.length + 1 = n ∧
      (setup = none → isForeign (messageOf bad.payload) = false →
        ∃ l : Loading, l.1.err ≠ none ∧ processed addPublication agent setup fragments = n ∧
          loadSnapshot addPublication o agent setup fragments = finishLoad o l) := by
  constructor
  · constructor
    · rintro ⟨⟨err, after, hreturn, _⟩, _⟩
      cases setup with
      | none => exact absurd hreturn (loadSnapshot_no_error addPublication o agent fragments err after)
      | some err => exact ⟨err, rfl⟩
    · rintro ⟨err, rfl⟩
      exact ⟨⟨err, agent, rfl, rfl⟩, Nat.zero_le n⟩
  · obtain ⟨before, bad, after, rfl, rfl, hstop⟩ := Loading.load_of_bad rfl hbad
    refine ⟨before, bad, after, rfl, rfl, ?_⟩
    rintro rfl hown
    obtain ⟨l, hload, hdone, herr⟩ := hstop hown
    exact ⟨l, herr, loadSnapshot_of_stopped addPublication o agent hload hdone⟩

end Refusal

/-! ## Recovery -/

/-- A service is started without a snapshot, or on what the loader made of one. -/
theorem startService_cases {addPublication : Nat → Option String} {o : Options} {agent after : Agent} {r : Recovery}
    (h : startService addPublication o agent r = .returned none after) :
    (r.leadershipTermId = -1 ∧ after = agent.emit (.onStart false)) ∨
    (r.leadershipTermId ≠ -1 ∧ ∃ timeUnit,
      after = { (Loading.load addPublication (SnapshotLoader.fresh, agent) r.fragments).1.2 with
        timeUnit := timeUnit }.emit (.onStart true)) := by
  unfold startService at h
  split at h
  next hnone =>
    cases h
    exact .inl ⟨hnone, rfl⟩
  next hsnapshot =>
    refine .inr ⟨hsnapshot, ?_⟩
    split at h
    · cases h
    · split at h
      · cases h
      · split at h
        · cases h
        · unfold loadSnapshot finishLoad at h
          split at h
          · cases h
          · simp only at h
            split at h
            · split at h
              · cases h
              · cases h
                exact ⟨_, rfl⟩
            · cases h

theorem recoverState_cases {o : Options} {env : Env} {agent after : Agent} {r : Recovery}
    (h : recoverState o env agent r = some after) :
    ∃ started, startService env.addPublication o (agent.recovering r) r = .returned none started ∧
      started.serviceAckRequest o env started.logPosition started.clusterTime r.clientId = .ok after := by
  unfold recoverState at h
  split at h
  next started hstart =>
    split at h
    next hack =>
      cases h
      exact ⟨started, hstart, hack⟩
    next => simp at h
  next => simp at h

/-! ## A snapshot that is only an end, and one of another type -/

/-- A marker message as a fragment. -/
def markerFragment (typeId : Int) (mark : SnapshotMark) (position : Int) : SnapshotFragment :=
  ⟨MessageHeader.encode ⟨40, 100, 111, 16⟩ ++ SnapshotMarker.body ⟨typeId, 0, 0, 0, mark, .MILLIS, 0⟩, position⟩

theorem malformed_refused_iff_unread :
    firstBad (fun _ => none) (SnapshotLoader.fresh, Agent.initial) [markerFragment 2 .END 96] = some 1 ∧
    Refused (fun _ => none) ⟨0, 0⟩ Agent.initial (some "no archive") [markerFragment 2 .END 96] 1 := by
  have hbad : firstBad (fun _ => none) (SnapshotLoader.fresh, Agent.initial) [markerFragment 2 .END 96] = some 1 := by
    decide +kernel
  exact ⟨hbad, (malformed_refused_iff (fun _ => none) ⟨0, 0⟩ Agent.initial (some "no archive")
    [markerFragment 2 .END 96] hbad).1.mpr ⟨"no archive", rfl⟩⟩

/-- The service is started on an end without a begin; and the loader reads on past a marker of another
type, to the end of the snapshot behind it. -/
theorem malformed_snapshot_starts :
    (firstBad (fun _ => none) (SnapshotLoader.fresh, Agent.initial) [markerFragment 2 .END 96] = some 1 ∧
      loadSnapshot (fun _ => none) ⟨0, 0⟩ Agent.initial none [markerFragment 2 .END 96] =
        .returned none (Agent.initial.emit (.onStart true))) ∧
    (firstBad (fun _ => none) (SnapshotLoader.fresh, Agent.initial)
        [markerFragment 3 .BEGIN 96, markerFragment 2 .BEGIN 192, markerFragment 2 .END 288] = some 1 ∧
      processed (fun _ => none) Agent.initial none
        [markerFragment 3 .BEGIN 96, markerFragment 2 .BEGIN 192, markerFragment 2 .END 288] = 3 ∧
      loadSnapshot (fun _ => none) ⟨0, 0⟩ Agent.initial none
        [markerFragment 3 .BEGIN 96, markerFragment 2 .BEGIN 192, markerFragment 2 .END 288] =
        .returned none (Agent.initial.emit (.onStart true))) := by
  decide +kernel

end AeronGo.Cluster.Service
