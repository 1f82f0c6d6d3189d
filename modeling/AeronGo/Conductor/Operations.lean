import AeronGo.Conductor.Events

/-!
# A conductor in use

The calls of a client and the events of the driver, one after the other. A registration id is new when it is
added, the driver announces a subscription once, and the calls of a run succeed: the driver is active and takes
the commands.
-/

namespace AeronGo.Conductor

open Machine Atomic Driver

/-- The registration that a command is about. -/
def registrationOf : Command → Int
  | .addPublication correlationID _ _ => correlationID
  | .addExclusivePublication correlationID _ _ => correlationID
  | .removePublication registrationID => registrationID
  | .addSubscription correlationID _ _ => correlationID
  | .removeSubscription registrationID => registrationID
  | .addCounter correlationID _ => correlationID
  | .removeCounter registrationID => registrationID
  | .addRcvDestination registrationID _ => registrationID
  | .removeRcvDestination registrationID _ => registrationID

inductive Operation where
  | addPublication (regID : Int) (channel : String) (streamID : Int)
  | addExclusivePublication (regID : Int) (channel : String) (streamID : Int)
  | addSubscription (regID : Int) (channel : String) (streamID : Int) (available unavailable : Bool)
  | addCounter (regID typeId keyLength labelLength : Int)
  | findPublication (regID : Int)
  | findSubscription (regID : Int)
  | findCounter (regID : Int) (newCounterError : Option String)
  | closePublication (ref : Nat)
  | closeSubscription (ref : Nat)
  | closeCounter (ref : Nat)
  | newPublication (sessionID posLimitCounterID channelStatusIndicatorID : Int) (logFileName : String)
      (regID origRegID : Int)
  | subscriptionReady (correlationID channelStatusIndicatorID : Int)
  | availableCounter (registrationId counterId : Int)
  | availableImage (sessionID subsRegID corrID : Int)
  | unavailableImage (corrID subscriptionRegistrationID : Int)
  | errorResponse (corrID errorCode : Int) (errorMessage : String)
  | checkManagedResources (now : Int)

namespace ClientConductor

/-- The id has been given out. -/
def isKnown (cc : ClientConductor) (id : Int) : Bool := cc.commands.any fun command => registrationOf command = id

/-- An add call with a new id that succeeds. -/
def added (cc : ClientConductor) (regID : Int) (outcome : Added) : Option ClientConductor :=
  if cc.isKnown regID then none
  else match outcome with
    | .ok (.ok (_, cc)) => some cc
    | _ => none

/-- A close call that succeeds. -/
def closed : Outcome → Option ClientConductor
  | .ok (none, cc) => some cc
  | _ => none

def operate (w : World) (cc : ClientConductor) : Operation → Option ClientConductor
  | .addPublication regID channel streamID => cc.added regID (cc.addPublication w regID channel streamID)
  | .addExclusivePublication regID channel streamID =>
    cc.added regID (cc.addExclusivePublication w regID channel streamID)
  | .addSubscription regID channel streamID available unavailable =>
    cc.added regID (cc.addSubscriptionWithHandlers w regID channel streamID available unavailable)
  | .addCounter regID typeId keyLength labelLength =>
    cc.added regID (cc.addCounter w regID typeId keyLength labelLength)
  | .findPublication regID => some (cc.findPublication w regID).2.2
  | .findSubscription regID => some (cc.findSubscription w regID).2.2
  | .findCounter regID newCounterError => some (cc.findCounter w regID newCounterError).2.2
  | .closePublication ref => closed (cc.closePublication w ref)
  | .closeSubscription ref => closed (cc.closeSubscription w ref)
  | .closeCounter ref => closed (cc.closeCounter w ref)
  | .newPublication sessionID posLimitCounterID channelStatusIndicatorID logFileName regID origRegID =>
    (cc.onNewPublication sessionID posLimitCounterID channelStatusIndicatorID logFileName regID origRegID).toOption
  | .subscriptionReady correlationID channelStatusIndicatorID =>
    if cc.subs.any fun sub => sub.regID = correlationID ∧ sub.subscription.isSome then none
    else (cc.onSubscriptionReady correlationID channelStatusIndicatorID).toOption
  | .availableCounter registrationId counterId => some (cc.onAvailableCounter registrationId counterId)
  | .availableImage sessionID subsRegID corrID => (cc.onAvailableImage sessionID subsRegID corrID).toOption
  | .unavailableImage corrID subscriptionRegistrationID =>
    (cc.onUnavailableImage w corrID subscriptionRegistrationID).toOption
  | .errorResponse corrID errorCode errorMessage => some (cc.onErrorResponse corrID errorCode errorMessage)
  | .checkManagedResources now => (cc.onCheckManagedResources w now).toOption

/-- The driver takes every command. -/
def accepting (w : World) : World := { w with takes := fun _ => true }

/-- The runs of a conductor from its `Init`. -/
def system (driverTimeoutNs resourceLingerTimeoutNs : Int) (hasErrorHandler : Bool) :
    System ClientConductor (World × Operation) :=
  .ofStep (· = .init driverTimeoutNs resourceLingerTimeoutNs hasErrorHandler) fun cc a =>
    cc.operate (accepting a.1) a.2

end ClientConductor

end AeronGo.Conductor
