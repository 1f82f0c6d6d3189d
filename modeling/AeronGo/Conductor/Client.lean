import AeronGo.Conductor.State

/-!
# What a client calls

Adding, finding and closing publications, subscriptions and counters, and `closeAllResources`. The loops over
`pubs` and `subs` read the slice while entries are removed from it (`Slice.swapRemove`).
-/

namespace AeronGo.Conductor.ClientConductor

open Machine Atomic Driver

variable (w : World)

/-! ## Releasing -/

/-- The loop of `releasePublication` and `releaseSubscription` over its indices: entries that match are released
and removed, until a release fails. Registration ids are distinct, so nothing was removed before that. -/
def releaseEach {α : Type} (isMatch : α → Bool) (release : α → ClientConductor → Outcome) :
    List Nat → List α → ClientConductor → Except Stop (Option String × List α × ClientConductor)
  | [], entries, cc => .ok (none, entries, cc)
  | i :: is, entries, cc =>
    match entries[i]? with
    | none => releaseEach isMatch release is entries cc
    | some entry =>
      if isMatch entry then do
        match ← release entry cc with
        | (some err, cc) => return (some err, entries, cc)
        | (none, cc) => releaseEach isMatch release is (Slice.swapRemove entries i) cc
      else releaseEach isMatch release is entries cc

/-- The body for a publication: its command, then its log buffers if nothing else refers to them. -/
def releasePublicationState (pub : PublicationState) (cc : ClientConductor) : Outcome :=
  match cc.writeCommandToDriver w (.removePublication pub.regID) with
  | (some err, cc) => .ok (some err, cc)
  | (none, cc) =>
    match pub.buffers with
    | none => .error .panic
    | some buffers =>
      if buffers.refCount - 1 = 0 then do
        let cc ← cc.linger (w.now pub.regID) (.buffers buffers.id)
        return (none, cc)
      else .ok (none, cc)

variable (cc : ClientConductor)

def releasePublication (regID : Int) : Outcome :=
  match cc.getDriverStatus with
  | some err => .ok (some err, cc)
  | none => do
    let (err, pubs, cc) ← releaseEach (fun pub => pub.regID = regID) (releasePublicationState w)
      (List.range cc.pubs.length) cc.pubs cc
    return (err, { cc with pubs := pubs })

/-- The images of a subscription: each is announced and lingers. -/
def releaseImages (sub : SubscriptionState) (hasHandler : Bool) : List Image → ClientConductor →
    Except Stop ClientConductor
  | [], cc => .ok cc
  | image :: images, cc => do
    let cc := if hasHandler then { cc with imageCalls := cc.imageCalls ++ [.unavailable sub.regID (some image)] } else cc
    let cc ← cc.linger (w.now sub.regID) (.image image.id)
    releaseImages sub hasHandler images cc

/-- `sub.subscription.UnavailableImageHandler()` is there. -/
def hasUnavailableImageHandler (sub : SubscriptionState) : Bool :=
  match sub.subscription.bind (cc.subscriptions[·]?) with
  | some subscription => subscription.unavailableImageHandler
  | none => false

def releaseSubscriptionState (images : List Image) (sub : SubscriptionState) (cc : ClientConductor) : Outcome :=
  match cc.writeCommandToDriver w (.removeSubscription sub.regID) with
  | (some err, cc) => .ok (some err, cc)
  | (none, cc) => do
    let cc ← releaseImages w sub (cc.hasUnavailableImageHandler sub) images cc
    return (none, cc)

def releaseSubscription (regID : Int) (images : List Image) : Outcome :=
  match cc.getDriverStatus with
  | some err => .ok (some err, cc)
  | none => do
    let (err, subs, cc) ← releaseEach (fun sub => sub.regID = regID) (releaseSubscriptionState w images)
      (List.range cc.subs.length) cc.subs cc
    return (err, { cc with subs := subs })

/-- A read of the map of counters. -/
def counter? (registrationId : Int) : Option CounterState :=
  (cc.counters.getD []).lookup registrationId

def deleteCounter (registrationId : Int) : ClientConductor :=
  { cc with counters := cc.counters.map (·.filter (·.1 ≠ registrationId)) }

/-- The registration is deleted before the command is sent. -/
def releaseCounter (registrationId : Int) : Outcome :=
  match cc.getDriverStatus with
  | some err => .ok (some err, cc)
  | none =>
    match cc.counter? registrationId with
    | none => .ok (none, cc)
    | some _ => .ok ((cc.deleteCounter registrationId).writeCommandToDriver w (.removeCounter registrationId))

/-! ## Closing -/

/-- `Publication.Close`. -/
def closePublication (ref : Nat) : Outcome :=
  match cc.publications[ref]? with
  | none => .error .panic
  | some publication =>
    if publication.isClosed then .ok (none, cc)
    else
      releasePublication w { cc with publications := cc.publications.set ref { publication with isClosed := true } }
        publication.regID

/-- The `CompareAndSet` of `Subscription.Close`. -/
def markSubscriptionClosed (ref : Nat) (subscription : Subscription) : ClientConductor :=
  { cc with subscriptions := cc.subscriptions.set ref { subscription with isClosed := true } }

/-- `images.Empty()` of a subscription: the images, and the list is empty. -/
def emptyImages (ref : Nat) : List Image × ClientConductor :=
  match cc.subscriptions[ref]? with
  | none => ([], cc)
  | some subscription =>
    (subscription.images, { cc with subscriptions := cc.subscriptions.set ref { subscription with images := [] } })

/-- `Subscription.Close`. -/
def closeSubscription (ref : Nat) : Outcome :=
  match cc.subscriptions[ref]? with
  | none => .error .panic
  | some subscription =>
    if subscription.isClosed then .ok (none, cc)
    else
      let (images, cc) := (cc.markSubscriptionClosed ref subscription).emptyImages ref
      cc.releaseSubscription w subscription.registrationID images

/-- `Counter.Close`. -/
def closeCounter (ref : Nat) : Outcome :=
  match cc.counterObjects[ref]? with
  | none => .error .panic
  | some counter =>
    if counter.isClosed then .ok (none, cc)
    else
      releaseCounter w { cc with counterObjects := cc.counterObjects.set ref { counter with isClosed := true } }
        counter.registrationId

/-! ## closeAllResources -/

/-- An error of a `Close` goes to the error handler. -/
def report (outcome : Outcome) : Except Stop ClientConductor := do
  match ← outcome with
  | (none, cc) => return cc
  | (some err, cc) => cc.onError err

/-- One round of the loop over `pubs`. -/
def closePublicationAt (i : Nat) : Except Stop ClientConductor :=
  match cc.pubs[i]?.bind (·.publication) with
  | none => .ok cc
  | some ref => report (cc.closePublication w ref)

def closeSubscriptionAt (i : Nat) : Except Stop ClientConductor :=
  match cc.subs[i]?.bind (·.subscription) with
  | none => .ok cc
  | some ref => report (cc.closeSubscription w ref)

/-- One round of the loop over the map of counters, which may not have the entry any more. -/
def closeCounterOf (registrationId : Int) : Except Stop ClientConductor :=
  match (cc.counter? registrationId).bind (·.counter) with
  | none => .ok cc
  | some ref => report (cc.closeCounter w ref)

def closeAllResources : Except Stop ClientConductor :=
  if cc.running then do
    let cc := { cc with running := false }
    let cc ← (List.range cc.pubs.length).foldlM (closePublicationAt w) cc
    let cc := { cc with pubs := [] }
    let cc ← (List.range cc.subs.length).foldlM (closeSubscriptionAt w) cc
    let cc := { cc with subs := [] }
    let cc ← ((cc.counters.getD []).map Prod.fst).foldlM (closeCounterOf w) cc
    return { cc with counters := none }
  else .ok cc

end AeronGo.Conductor.ClientConductor
