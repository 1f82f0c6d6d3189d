import AeronGo.Laws.Conductor.Release

/-!
# Closing once

A `Close` marks its object closed before the driver command that may fail. So whatever the release did when it
failed, a later `Close` does nothing: to close an object again is of use if and only if the first `Close` did not
fail.
-/

namespace AeronGo.Conductor.ClientConductor

open Machine Atomic Driver

variable {w : World} {a b cc cc' : ClientConductor} {err : Option String} {ref : Nat} {regID : Int}

/-! ## The release of a counter -/

theorem releaseCounter_refused
    (h : Refuses w (.removeCounter regID) (cc.counter? regID).isSome cc) :
    ∃ err cc', cc.releaseCounter w regID = .ok (some err, cc') := by
  cases hactive : cc.driverActive with
  | false =>
    refine ⟨"driver is inactive", cc, ?_⟩
    simp only [releaseCounter, getDriverStatus, hactive, Bool.false_eq_true, ↓reduceIte]
  | true =>
    obtain ⟨hsome, htakes⟩ := h.resolve_left (by simp [hactive])
    obtain ⟨state, hstate⟩ := Option.isSome_iff_exists.mp hsome
    refine ⟨"couldn't write command to driver", cc.deleteCounter regID, ?_⟩
    simp only [releaseCounter, getDriverStatus, hactive, ↓reduceIte, hstate, writeCommandToDriver, htakes,
      Bool.false_eq_true]

theorem releaseCounter_releases
    (h : cc.releaseCounter w regID = .ok (err, cc')) :
    SameObjects cc cc' ∧
      (err.isSome → Refuses w (.removeCounter regID) (cc.counter? regID).isSome cc) := by
  cases hactive : cc.driverActive with
  | false =>
    simp only [releaseCounter, getDriverStatus, hactive, Bool.false_eq_true, ↓reduceIte] at h
    cases h
    exact ⟨.refl cc, fun _ => .inl hactive⟩
  | true =>
    cases hstate : cc.counter? regID with
    | none =>
      simp only [releaseCounter, getDriverStatus, hactive, ↓reduceIte, hstate] at h
      cases h
      exact ⟨.refl cc, by simp⟩
    | some state =>
      simp only [releaseCounter, getDriverStatus, hactive, ↓reduceIte, hstate] at h
      rcases writeCommandToDriver_cases (w := w) (cc.deleteCounter regID) (.removeCounter regID) with
        ⟨_, hwrite⟩ | ⟨hrefused, hwrite⟩ <;> rw [hwrite] at h <;> cases h
      · exact ⟨⟨rfl, rfl, rfl⟩, by simp⟩
      · exact ⟨⟨rfl, rfl, rfl⟩, fun _ => .inr ⟨rfl, hrefused⟩⟩

/-! ## Objects -/

/-- An object that a client can close. -/
inductive Handle where
  | publication (ref : Nat)
  | subscription (ref : Nat)
  | counter (ref : Nat)
deriving DecidableEq, Repr

variable {handle : Handle}

def close (w : World) (cc : ClientConductor) : Handle → Outcome
  | .publication ref => cc.closePublication w ref
  | .subscription ref => cc.closeSubscription w ref
  | .counter ref => cc.closeCounter w ref

/-- The object's `isClosed`, if there is such an object. -/
def isClosed? (cc : ClientConductor) : Handle → Option Bool
  | .publication ref => cc.publications[ref]?.map (·.isClosed)
  | .subscription ref => cc.subscriptions[ref]?.map (·.isClosed)
  | .counter ref => cc.counterObjects[ref]?.map (·.isClosed)

/-- The registration that the object is handed out for. -/
def isRegistered (cc : ClientConductor) : Handle → Bool
  | .publication ref => cc.pubs.any (·.publication = some ref)
  | .subscription ref => cc.subs.any (·.subscription = some ref)
  | .counter ref => (cc.counters.getD []).any (·.2.counter = some ref)

/-- The command that removes the object, and whether the conductor would send it. -/
def removal (cc : ClientConductor) : Handle → Option (Command × Bool)
  | .publication ref => cc.publications[ref]?.map fun publication =>
      (.removePublication publication.regID, cc.pubs.any (·.regID = publication.regID))
  | .subscription ref => cc.subscriptions[ref]?.map fun subscription =>
      (.removeSubscription subscription.registrationID, cc.subs.any (·.regID = subscription.registrationID))
  | .counter ref => cc.counterObjects[ref]?.map fun counter =>
      (.removeCounter counter.registrationId, (cc.counter? counter.registrationId).isSome)

/-- The log buffers and images that an object has. -/
def holdings (cc : ClientConductor) : Handle → List Resource
  | .publication ref => (cc.pubs.filter (·.publication = some ref)).filterMap fun pub =>
      pub.buffers.map fun buffers => .buffers buffers.id
  | .subscription ref => (cc.subscriptions[ref]?.elim [] (·.images)).map fun image => .image image.id
  | .counter _ => []

/-- Log buffers and images that the object does not have any more linger. -/
def Preserves (a b : ClientConductor) (handle : Handle) : Prop :=
  ∀ resource ∈ a.holdings handle, resource ∈ b.holdings handle ∨ resource ∈ b.lingeringResources.map (·.resource)

/-- Closing the object once the driver is back sends the remove command and releases the object. -/
def Recovers (b : ClientConductor) (handle : Handle) : Prop :=
  ∀ w : World, (∀ command, w.takes command = true) →
    ∃ c command isNeeded, close w { b with driverActive := true } handle = .ok (none, c) ∧
      b.removal handle = some (command, isNeeded) ∧ c.commands = b.commands ++ [command] ∧ c.isRegistered handle = false

/-- A `Close` that fails can be repeated and loses nothing. -/
def Retryable (w : World) (a : ClientConductor) (handle : Handle) : Prop :=
  ∀ err b, close w a handle = .ok (some err, b) →
    b.isRegistered handle = true ∧ Preserves a b handle ∧ Recovers b handle

/-- The driver is active, and takes the remove command if there is one to send. -/
def Accepting (w : World) (a : ClientConductor) (handle : Handle) : Prop :=
  a.driverActive = true ∧ ∀ command, a.removal handle = some (command, true) → w.takes command = true

/-- A closed object stays closed whatever is done with it. -/
theorem close_of_closed (h : a.isClosed? handle = some true) :
    close w a handle = .ok (none, a) := by
  cases handle with
  | publication ref =>
    obtain ⟨publication, hpublication, hclosed⟩ := Option.map_eq_some_iff.mp h
    simp only [close, closePublication, hpublication, hclosed, ↓reduceIte]
  | subscription ref =>
    obtain ⟨subscription, hsubscription, hclosed⟩ := Option.map_eq_some_iff.mp h
    simp only [close, closeSubscription, hsubscription, hclosed, ↓reduceIte]
  | counter ref =>
    obtain ⟨counter, hcounter, hclosed⟩ := Option.map_eq_some_iff.mp h
    simp only [close, closeCounter, hcounter, hclosed, ↓reduceIte]

theorem close_of_none (h : a.isClosed? handle = none) : close w a handle = .error .panic := by
  cases handle with
  | publication ref => simp only [close, closePublication, Option.map_eq_none_iff.mp h]
  | subscription ref => simp only [close, closeSubscription, Option.map_eq_none_iff.mp h]
  | counter ref => simp only [close, closeCounter, Option.map_eq_none_iff.mp h]

/-- An object that is closed is not released by closing it. -/
theorem not_recovers_of_closed (h : b.isClosed? handle = some true) :
    ¬ Recovers b handle := by
  intro hrecovers
  obtain ⟨c, command, _, hclose, _, hcommands, _⟩ := hrecovers ⟨fun _ => true, fun _ => 0, fun _ => none⟩ fun _ => rfl
  have hclosed : ({ b with driverActive := true } : ClientConductor).isClosed? handle = some true := by
    cases handle <;> exact h
  rw [close_of_closed hclosed] at hclose
  cases hclose
  exact absurd hcommands (by simp)

/-! ## What a Close does to an open object -/

/-- The object is closed, and the call fails if and only if it is refused. -/
structure Closes (w : World) (a : ClientConductor) (handle : Handle) : Prop where
  closes : ∀ err b, close w a handle = .ok (err, b) →
    b.isClosed? handle = some true ∧ (err.isSome → ¬ Accepting w a handle)
  fails : ¬ Accepting w a handle → ∃ err b, close w a handle = .ok (some err, b)

theorem accepting_iff {command : Command} {isNeeded : Bool}
    (h : a.removal handle = some (command, isNeeded)) :
    Accepting w a handle ↔ ¬ Refuses w command isNeeded a := by
  constructor
  · rintro ⟨hactive, htakes⟩ (hinactive | ⟨hneeded, hrefused⟩)
    · exact nomatch hactive.symm.trans hinactive
    · exact nomatch hrefused.symm.trans (htakes command (hneeded ▸ h))
  · intro hnot
    refine ⟨eq_true_of_ne_false fun hinactive => hnot (.inl hinactive), fun command' hcommand => ?_⟩
    obtain ⟨rfl, rfl⟩ := Prod.mk.inj (Option.some.inj (h.symm.trans hcommand))
    exact eq_true_of_ne_false fun hrefused => hnot (.inr ⟨rfl, hrefused⟩)

/-- The calls of `Close` differ in the release that they end with. -/
theorem Closes.of_release (a' : ClientConductor) (command : Command)
    (isNeeded : Bool) (release : ClientConductor → Outcome) (hclose : close w a handle = release a')
    (hremoval : a.removal handle = some (command, isNeeded)) (hactive : a'.driverActive = a.driverActive)
    (hclosed : ∀ b, SameObjects a' b → b.isClosed? handle = some true)
    (hreleases : ∀ err b, release a' = .ok (err, b) →
      SameObjects a' b ∧ (err.isSome → Refuses w command isNeeded a'))
    (hrefused : Refuses w command isNeeded a' → ∃ err b, release a' = .ok (some err, b)) : Closes w a handle := by
  have hsame : Refuses w command isNeeded a' ↔ Refuses w command isNeeded a := by
    simp only [Refuses, hactive]
  refine ⟨fun err b hb => ?_, fun hnot => ?_⟩
  · rw [hclose] at hb
    obtain ⟨hb', herr⟩ := hreleases err b hb
    refine ⟨hclosed b hb', fun hsome haccepting => ?_⟩
    exact (accepting_iff hremoval).mp haccepting (hsame.mp (herr hsome))
  · rw [hclose]
    refine hrefused (hsame.mpr ?_)
    by_contra hnone
    exact hnot ((accepting_iff hremoval).mpr hnone)

theorem closePublication_closes (h : a.isClosed? (.publication ref) = some false) :
    Closes w a (.publication ref) := by
  obtain ⟨publication, hpublication, hopen⟩ := Option.map_eq_some_iff.mp h
  have hlength : ref < a.publications.length := (List.getElem?_eq_some_iff.mp hpublication).1
  refine Closes.of_release { a with publications := a.publications.set ref { publication with isClosed := true } }
    (.removePublication publication.regID) (a.pubs.any (·.regID = publication.regID))
    (·.releasePublication w publication.regID) ?_ ?_ rfl ?_ (fun _ _ hb => (releasePublication_releases hb).1)
    releasePublication_refused
  · simp only [close, closePublication, hpublication, hopen, Bool.false_eq_true, ↓reduceIte]
  · simp only [removal, hpublication, Option.map_some]
  · intro b hb
    simp only [isClosed?, hb.publications, List.getElem?_set_self hlength, Option.map_some]

theorem closeSubscription_closes (h : a.isClosed? (.subscription ref) = some false) :
    Closes w a (.subscription ref) := by
  obtain ⟨subscription, hsubscription, hopen⟩ := Option.map_eq_some_iff.mp h
  have hlength : ref < a.subscriptions.length := (List.getElem?_eq_some_iff.mp hsubscription).1
  refine Closes.of_release
    { a with subscriptions := a.subscriptions.set ref { subscription with isClosed := true, images := [] } }
    (.removeSubscription subscription.registrationID) (a.subs.any (·.regID = subscription.registrationID))
    (·.releaseSubscription w subscription.registrationID subscription.images) ?_ ?_ rfl ?_
    (fun _ _ hb => (releaseSubscription_releases hb).1) releaseSubscription_refused
  · simp only [close, closeSubscription, hsubscription, hopen, Bool.false_eq_true, ↓reduceIte, emptyImages,
      markSubscriptionClosed, List.getElem?_set_self hlength, List.set_set]
  · simp only [removal, hsubscription, Option.map_some]
  · intro b hb
    simp only [isClosed?, hb.subscriptions, List.getElem?_set_self hlength, Option.map_some]

theorem closeCounter_closes (h : a.isClosed? (.counter ref) = some false) :
    Closes w a (.counter ref) := by
  obtain ⟨counter, hcounter, hopen⟩ := Option.map_eq_some_iff.mp h
  have hlength : ref < a.counterObjects.length := (List.getElem?_eq_some_iff.mp hcounter).1
  refine Closes.of_release { a with counterObjects := a.counterObjects.set ref { counter with isClosed := true } }
    (.removeCounter counter.registrationId) (a.counter? counter.registrationId).isSome
    (·.releaseCounter w counter.registrationId) ?_ ?_ rfl ?_ (fun _ _ hb => releaseCounter_releases hb)
    releaseCounter_refused
  · simp only [close, closeCounter, hcounter, hopen, Bool.false_eq_true, ↓reduceIte]
  · simp only [removal, hcounter, Option.map_some]
  · intro b hb
    simp only [isClosed?, hb.counterObjects, List.getElem?_set_self hlength, Option.map_some]

theorem closes_of_open (h : a.isClosed? handle = some false) :
    Closes w a handle := by
  cases handle with
  | publication ref => exact closePublication_closes h
  | subscription ref => exact closeSubscription_closes h
  | counter ref => exact closeCounter_closes h

/-- A failed `Close` of an open object is retryable and loses nothing if and only if it cannot fail: the driver is
active and takes the remove command. -/
theorem close_retryable_iff {a : ClientConductor} {handle : Handle} (h : a.isClosed? handle = some false) :
    Retryable w a handle ↔ Accepting w a handle := by
  have hcloses := closes_of_open (w := w) h
  constructor
  · intro hretryable
    by_contra hnot
    obtain ⟨err, b, hb⟩ := hcloses.fails hnot
    exact not_recovers_of_closed (hcloses.closes _ b hb).1 (hretryable err b hb).2.2
  · intro haccepting err b hb
    exact absurd haccepting ((hcloses.closes _ b hb).2 rfl)

/-- A publication, a subscription with one image, and a counter. -/
def furnished : Except Stop ClientConductor := do
  let w := world true
  let cc := ClientConductor.init 1000 100 true
  let .ok (_, cc) ← cc.addPublication w 1 "aeron:ipc" 10 | .error .panic
  let .ok (_, cc) ← cc.addSubscriptionWithHandlers w 2 "aeron:ipc" 10 true true | .error .panic
  let .ok (_, cc) ← cc.addCounter w 3 7 0 0 | .error .panic
  let cc ← cc.onNewPublication 4 5 6 "log" 1 1
  let cc ← cc.onSubscriptionReady 2 8
  let cc ← cc.onAvailableImage 4 2 9
  let cc := cc.onAvailableCounter 3 11
  let (_, _, cc) := cc.findPublication w 1
  let (_, _, cc) := cc.findCounter w 3 none
  return cc

def sampleConductor : ClientConductor := furnished.toOption.getD (.init 0 0 false)

/-- The publication is open, and the driver takes its remove command. -/
theorem close_retryable_iff_publication :
    sampleConductor.isClosed? (.publication 0) = some false ∧
      Accepting (world true) sampleConductor (.publication 0) ∧
      Retryable (world true) sampleConductor (.publication 0) := by
  have hopen : sampleConductor.isClosed? (.publication 0) = some false := by decide +kernel
  have haccepting : Accepting (world true) sampleConductor (.publication 0) :=
    ⟨by decide +kernel, fun _ _ => rfl⟩
  exact ⟨hopen, haccepting, (close_retryable_iff hopen).mpr haccepting⟩

/-- The ring is full when a subscription with an image is closed. The call fails, the image is neither in the list
nor lingering, and the next `Close` sends nothing. -/
theorem failed_close_drops_image :
    sampleConductor.isClosed? (.subscription 0) = some false ∧
    ∃ b, close (world false) sampleConductor (.subscription 0) = .ok (some "couldn't write command to driver", b) ∧
      ¬ Preserves sampleConductor b (.subscription 0) ∧ close (world true) b (.subscription 0) = .ok (none, b) ∧
      b.isRegistered (.subscription 0) = true ∧ ¬ Retryable (world false) sampleConductor (.subscription 0) := by
  have hopen : sampleConductor.isClosed? (.subscription 0) = some false := by decide +kernel
  have hfailed : ((close (world false) sampleConductor (.subscription 0)).toOption.any fun r =>
      decide (r.1 = some "couldn't write command to driver" ∧ r.2.isClosed? (.subscription 0) = some true ∧
        Resource.image 1 ∈ sampleConductor.holdings (.subscription 0) ∧ r.2.holdings (.subscription 0) = [] ∧
        r.2.lingeringResources = [] ∧ r.2.isRegistered (.subscription 0) = true)) = true := by decide +kernel
  cases hb : close (world false) sampleConductor (.subscription 0) with
  | error e =>
    rw [hb] at hfailed
    cases hfailed
  | ok r =>
    obtain ⟨err, b⟩ := r
    rw [hb] at hfailed
    obtain ⟨rfl, hclosed, himage, hnone, hempty, hregistered⟩ := of_decide_eq_true hfailed
    have hlost : ¬ Preserves sampleConductor b (.subscription 0) := by
      intro hpreserves
      rcases hpreserves _ himage with h | h
      · rw [hnone] at h
        cases h
      · rw [hempty] at h
        cases h
    exact ⟨hopen, b, rfl, hlost, close_of_closed hclosed, hregistered, fun h => hlost (h _ b hb).2.1⟩

end AeronGo.Conductor.ClientConductor
