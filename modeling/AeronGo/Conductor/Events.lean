import AeronGo.Conductor.Client
import AeronGo.ImageList
import AeronGo.Machine.Run

/-!
# Registrations, driver events and runs

The add and find calls, the handlers of driver events and the check of lingering resources. Registration ids are
drawn from the counter of the driver's ring, so each add call gets a new one.
-/

namespace AeronGo.Conductor.ClientConductor

open Machine Atomic Driver

variable (w : World)

/-! ## Adding -/

/-- An add call: its error, or the registration id and the conductor. -/
abbrev Added := Except Stop (Except String (Int × ClientConductor))

variable (cc : ClientConductor)

/-- The driver is asked, and then the registration is made. -/
def addWith (regID : Int) (command : Command) (register : ClientConductor → Except Stop ClientConductor) : Added :=
  match cc.getDriverStatus with
  | some err => .ok (.error err)
  | none =>
    match cc.writeCommandToDriver w command with
    | (some err, _) => .ok (.error err)
    | (none, cc) => do
      let cc ← register cc
      return .ok (regID, cc)

/-- `publicationStateDefn.Init`. -/
def initPublication (channel : String) (regID streamID now : Int) : PublicationState :=
  ⟨regID, 0, now, streamID, -1, -1, 0, 0, .awaitingMediaDriver, channel, "", none, none⟩

def registerPublication (channel : String) (regID streamID : Int) (cc : ClientConductor) : Except Stop ClientConductor :=
  .ok { cc with pubs := cc.pubs ++ [initPublication channel regID streamID (w.now regID)] }

def addPublication (cc : ClientConductor) (regID : Int) (channel : String) (streamID : Int) : Added :=
  cc.addWith w regID (.addPublication regID channel streamID) (registerPublication w channel regID streamID)

def addExclusivePublication (cc : ClientConductor) (regID : Int) (channel : String) (streamID : Int) : Added :=
  cc.addWith w regID (.addExclusivePublication regID channel streamID) (registerPublication w channel regID streamID)

/-- `subscriptionStateDefn.Init`. -/
def initSubscription (channel : String) (regID streamID now : Int) (available unavailable : Bool) : SubscriptionState :=
  ⟨regID, now, streamID, 0, .awaitingMediaDriver, channel, "", available, unavailable, none⟩

def addSubscriptionWithHandlers (regID : Int) (channel : String) (streamID : Int)
    (available unavailable : Bool) : Added :=
  cc.addWith w regID (.addSubscription regID channel streamID) fun cc =>
    .ok { cc with subs := cc.subs ++ [initSubscription channel regID streamID (w.now regID) available unavailable] }

/-- `counterStateDefn.Init`, put into the map. A nil map cannot be written to. -/
def registerCounter (regID : Int) (cc : ClientConductor) : Except Stop ClientConductor :=
  match cc.counters with
  | none => .error .panic
  | some counters =>
    let entry := (regID, ⟨w.now regID, 0, 0, "", .awaitingMediaDriver, none⟩)
    .ok { cc with counters := some (counters.filter (·.1 ≠ regID) ++ [entry]) }

def maxKeyLength : Int := 112

def maxLabelLength : Int := 380

def addCounter (cc : ClientConductor) (regID typeId keyLength labelLength : Int) : Added :=
  if keyLength < 0 ∨ maxKeyLength < keyLength then
    match cc.getDriverStatus with
    | some err => .ok (.error err)
    | none => .ok (.error ("key length out of bounds: " ++ toString keyLength))
  else if labelLength < 0 ∨ maxLabelLength < labelLength then
    match cc.getDriverStatus with
    | some err => .ok (.error err)
    | none => .ok (.error ("label length out of bounds: " ++ toString labelLength))
  else cc.addWith w regID (.addCounter regID typeId) (registerCounter w regID)

/-! ## Finding -/

/-- A find call: the object, or an error, or neither of them yet. -/
abbrev Found := Option Nat × Option String × ClientConductor

def timeoutExceeded (now timeOfRegistration driverTimeoutNs : Int) : Option String :=
  if i64 (timeOfRegistration + driverTimeoutNs) < now then
    some ("no response from driver. started: " ++ toString (timeOfRegistration.tdiv 1000000) ++ ", now: " ++
      toString (now.tdiv 1000000) ++ ", to: " ++ toString (driverTimeoutNs.tdiv 1000000))
  else none

def cannotBeFound (registrationID : Int) : String := "registration ID " ++ toString registrationID ++ " cannot be found"

def errorOn (registrationID errorCode : Int) (errorMessage : String) : String :=
  "error on " ++ toString registrationID ++ ": " ++ toString errorCode ++ ": " ++ errorMessage

/-- The publication that a registration is found to have. -/
def setPublication (registrationID : Int) (ref : Nat) : ClientConductor :=
  { cc with pubs := cc.pubs.map fun pub => if pub.regID = registrationID then { pub with publication := some ref } else pub }

/-- The publication is made when it is first found. -/
def findPublication (registrationID : Int) : Found :=
  match cc.pubs.find? (·.regID = registrationID) with
  | none => (none, some (cannotBeFound registrationID), cc)
  | some pub =>
    match pub.publication with
    | some ref => (some ref, none, cc)
    | none =>
      match pub.status with
      | .awaitingMediaDriver =>
        (none, timeoutExceeded (w.now registrationID) pub.timeOfRegistration cc.driverTimeoutNs, cc)
      | .registeredMediaDriver =>
        let ref := cc.publications.length
        (some ref, none, { cc.setPublication registrationID ref with
          publications := cc.publications ++ [⟨pub.channel, registrationID, pub.origRegID, pub.streamID, pub.sessionID,
            pub.posLimitCounterID, pub.channelStatusIndicatorID, false⟩] })
      | .erroredMediaDriver => (none, some (errorOn registrationID pub.errorCode pub.errorMessage), cc)

def findSubscription (registrationID : Int) : Found :=
  match cc.subs.find? (·.regID = registrationID) with
  | none => (none, some (cannotBeFound registrationID), cc)
  | some sub =>
    match sub.status with
    | .awaitingMediaDriver =>
      (none, timeoutExceeded (w.now registrationID) sub.timeOfRegistration cc.driverTimeoutNs, cc)
    | .registeredMediaDriver => (sub.subscription, none, cc)
    | .erroredMediaDriver => (none, some (errorOn registrationID sub.errorCode sub.errorMessage), cc)

/-- Replace a counter of the map. -/
def setCounter (registrationID : Int) (state : CounterState) : ClientConductor :=
  { cc with counters := cc.counters.map (·.map fun entry => if entry.1 = registrationID then (registrationID, state) else entry) }

/-- `newCounterError` is the error of `NewAtomicCounter`. -/
def findCounter (registrationID : Int) (newCounterError : Option String) : Found :=
  match cc.counter? registrationID with
  | none => (none, some (cannotBeFound registrationID), cc)
  | some state =>
    match state.counter with
    | some ref => (some ref, none, cc)
    | none =>
      match state.status with
      | .awaitingMediaDriver =>
        (none, timeoutExceeded (w.now registrationID) state.timeOfRegistration cc.driverTimeoutNs, cc)
      | .registeredMediaDriver =>
        match newCounterError with
        | some err => (none, some err, cc)
        | none =>
          let ref := cc.counterObjects.length
          (some ref, none, { cc.setCounter registrationID { state with counter := some ref } with
            counterObjects := cc.counterObjects ++ [⟨registrationID, state.counterId, false⟩] })
      | .erroredMediaDriver => (none, some (errorOn registrationID state.errorCode state.errorMessage), cc)

/-! ## Driver events -/

/-- The loop of an event handler: entries that match are updated. -/
def updateEach {α : Type} (isMatch : α → Bool) (update : α → ClientConductor → Except Stop (α × ClientConductor)) :
    List α → ClientConductor → Except Stop (List α × ClientConductor)
  | [], cc => .ok ([], cc)
  | entry :: entries, cc =>
    if isMatch entry then do
      let (entry, cc) ← update entry cc
      let (entries, cc) ← updateEach isMatch update entries cc
      return (entry :: entries, cc)
    else do
      let (entries, cc) ← updateEach isMatch update entries cc
      return (entry :: entries, cc)

/-- The log of a publication is mapped, and referred to once. -/
def publicationReady (sessionID posLimitCounterID channelStatusIndicatorID origRegID : Int) (logFileName : String)
    (pub : PublicationState) (cc : ClientConductor) : Except Stop (PublicationState × ClientConductor) :=
  .ok ({ pub with
    status := .registeredMediaDriver
    sessionID := sessionID
    posLimitCounterID := posLimitCounterID
    channelStatusIndicatorID := channelStatusIndicatorID
    buffers := some ⟨cc.nextID, logFileName, 1⟩
    origRegID := origRegID }, { cc with nextID := cc.nextID + 1 })

/-- `OnNewPublication` and `OnNewExclusivePublication`. -/
def onNewPublication (sessionID posLimitCounterID channelStatusIndicatorID : Int)
    (logFileName : String) (regID origRegID : Int) : Except Stop ClientConductor := do
  let (pubs, cc) ← updateEach (fun pub => pub.regID = regID)
    (publicationReady sessionID posLimitCounterID channelStatusIndicatorID origRegID logFileName) cc.pubs cc
  return { cc with pubs := pubs }

def onAvailableCounter (registrationId counterId : Int) : ClientConductor :=
  match cc.counter? registrationId with
  | none => cc
  | some state =>
    if state.status = .awaitingMediaDriver then
      cc.setCounter registrationId { state with counterId := counterId, status := .registeredMediaDriver }
    else cc

/-- `NewSubscription`. -/
def subscriptionReady (channelStatusIndicatorID : Int) (sub : SubscriptionState) (cc : ClientConductor) :
    Except Stop (SubscriptionState × ClientConductor) :=
  .ok ({ sub with status := .registeredMediaDriver, subscription := some cc.subscriptions.length },
    { cc with subscriptions := cc.subscriptions ++ [⟨sub.channel, sub.regID, sub.streamID, channelStatusIndicatorID, [],
      false, sub.availableImageHandler, sub.unavailableImageHandler⟩] })

def onSubscriptionReady (correlationID channelStatusIndicatorID : Int) : Except Stop ClientConductor := do
  let (subs, cc) ← updateEach (fun sub => sub.regID = correlationID) (subscriptionReady channelStatusIndicatorID)
    cc.subs cc
  return { cc with subs := subs }

/-- `addImage`. -/
def addImage (subscription : Subscription) (image : Image) : Subscription :=
  { subscription with images := ImageList.addImage subscription.images image }

/-- `removeImage`. -/
def removeImage (subscription : Subscription) (correlationID : Int) : Option Image × Subscription :=
  let (image, images) := ImageList.removeImage (·.correlationID) subscription.images correlationID
  (image, { subscription with images := images })

/-- The image is made and announced. -/
def imageAvailable (sessionID corrID : Int) (sub : SubscriptionState) (cc : ClientConductor) :
    Except Stop (SubscriptionState × ClientConductor) :=
  match sub.subscription with
  | none => .ok (sub, cc)
  | some ref =>
    match cc.subscriptions[ref]? with
    | none => .error .panic
    | some subscription =>
      let image : Image := ⟨cc.nextID, sessionID, corrID⟩
      .ok (sub, { cc with
        nextID := cc.nextID + 1
        subscriptions := cc.subscriptions.set ref (addImage subscription image)
        imageCalls := if subscription.availableImageHandler then cc.imageCalls ++ [.available sub.regID image]
          else cc.imageCalls })

def onAvailableImage (sessionID subsRegID corrID : Int) : Except Stop ClientConductor := do
  let (subs, cc) ← updateEach (fun sub => sub.regID = subsRegID) (imageAvailable sessionID corrID) cc.subs cc
  return { cc with subs := subs }

/-- What lingers for an image that was found or not. -/
def resourceOf : Option Image → Resource
  | none => .nil
  | some image => .image image.id

/-- The image is announced and lingers, also if there is none. -/
def imageUnavailable (corrID : Int) (sub : SubscriptionState) (cc : ClientConductor) :
    Except Stop (SubscriptionState × ClientConductor) :=
  match sub.subscription with
  | none => .ok (sub, cc)
  | some ref =>
    match cc.subscriptions[ref]? with
    | none => .error .panic
    | some subscription => do
      let (image, subscription') := removeImage subscription corrID
      let cc : ClientConductor := { cc with
        subscriptions := cc.subscriptions.set ref subscription'
        imageCalls := if subscription.unavailableImageHandler then cc.imageCalls ++ [.unavailable sub.regID image]
          else cc.imageCalls }
      let cc ← cc.linger (w.now sub.regID) (resourceOf image)
      return (sub, cc)

def onUnavailableImage (corrID subscriptionRegistrationID : Int) : Except Stop ClientConductor := do
  let (subs, cc) ← updateEach (fun sub => sub.regID = subscriptionRegistrationID) (imageUnavailable w corrID) cc.subs cc
  return { cc with subs := subs }

/-- A counter, or else a publication, or else a subscription is told the error. -/
def onErrorResponse (corrID errorCode : Int) (errorMessage : String) : ClientConductor :=
  match cc.counter? corrID with
  | some state =>
    cc.setCounter corrID { state with status := .erroredMediaDriver, errorCode := errorCode, errorMessage := errorMessage }
  | none =>
    if cc.pubs.any (·.regID = corrID) then
      { cc with pubs := cc.pubs.map fun pub => if pub.regID = corrID then
          { pub with status := .erroredMediaDriver, errorCode := errorCode, errorMessage := errorMessage } else pub }
    else
      { cc with subs := cc.subs.map fun sub => if sub.regID = corrID then
          { sub with status := .erroredMediaDriver, errorCode := errorCode, errorMessage := errorMessage } else sub }

/-! ## Lingering resources -/

/-- A resource is closed, and its error reported. -/
def closeResource : Resource → Except Stop ClientConductor
  | .nil => .ok cc
  | resource =>
    let cc := { cc with closedResources := cc.closedResources ++ [resource] }
    match w.closeError resource with
    | none => .ok cc
    | some err => cc.onError err

/-- The loop of `onCheckManagedResources` over what was in the channel when it began. -/
def checkLingering (now : Int) : List LingerResource → ClientConductor → Except Stop ClientConductor
  | [], cc => .ok cc
  | r :: rest, cc =>
    if cc.resourceLingerTimeoutNs < i64 (now - r.lastTime) then do
      let cc ← { cc with lingeringResources := rest }.closeResource w r.resource
      checkLingering now rest cc
    else .ok { cc with lingeringResources := rest ++ [r] }

def onCheckManagedResources (now : Int) : Except Stop ClientConductor :=
  checkLingering w now cc.lingeringResources cc

/-- The loop of `forceCloseResources`. -/
def forceClose : List LingerResource → ClientConductor → Except Stop ClientConductor
  | [], cc => .ok cc
  | r :: rest, cc => do
    let cc ← { cc with lingeringResources := rest }.closeResource w r.resource
    forceClose rest cc

def forceCloseResources : Except Stop ClientConductor :=
  forceClose w cc.lingeringResources cc

end AeronGo.Conductor.ClientConductor
