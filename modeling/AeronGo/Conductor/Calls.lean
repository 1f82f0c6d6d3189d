import AeronGo.Conductor.Operations

/-!
# A conductor in any use

The calls of `Operations`, whether the driver takes their commands or not and whether they succeed or fail, as long
as they return. The driver may announce anything, be found inactive, and the conductor may be closed.
-/

namespace AeronGo.Conductor

open Machine Atomic Driver

inductive Call where
  | operation (operation : Operation)
  /-- `driverActive` is cleared. -/
  | driverInactive
  | closeAllResources
  | forceCloseResources

namespace ClientConductor

/-- An add call with a new id, whatever it returns. -/
def asked (cc : ClientConductor) (regID : Int) (outcome : Added) : Option ClientConductor :=
  if cc.isKnown regID then none
  else match outcome with
    | .ok (.ok (_, cc)) => some cc
    | .ok (.error _) => some cc
    | .error _ => none

/-- A close call, whatever it returns. -/
def returned : Outcome → Option ClientConductor
  | .ok (_, cc) => some cc
  | .error _ => none

def perform (w : World) (cc : ClientConductor) : Operation → Option ClientConductor
  | .addPublication regID channel streamID => cc.asked regID (cc.addPublication w regID channel streamID)
  | .addExclusivePublication regID channel streamID =>
    cc.asked regID (cc.addExclusivePublication w regID channel streamID)
  | .addSubscription regID channel streamID available unavailable =>
    cc.asked regID (cc.addSubscriptionWithHandlers w regID channel streamID available unavailable)
  | .addCounter regID typeId keyLength labelLength =>
    cc.asked regID (cc.addCounter w regID typeId keyLength labelLength)
  | .closePublication ref => returned (cc.closePublication w ref)
  | .closeSubscription ref => returned (cc.closeSubscription w ref)
  | .closeCounter ref => returned (cc.closeCounter w ref)
  | .subscriptionReady correlationID channelStatusIndicatorID =>
    (cc.onSubscriptionReady correlationID channelStatusIndicatorID).toOption
  | operation => cc.operate w operation

def call (w : World) (cc : ClientConductor) : Call → Option ClientConductor
  | .operation operation => cc.perform w operation
  | .driverInactive => some { cc with driverActive := false }
  | .closeAllResources => (cc.closeAllResources w).toOption
  | .forceCloseResources => (cc.forceCloseResources w).toOption

/-- All runs of a conductor from its `Init`. -/
def calls (driverTimeoutNs resourceLingerTimeoutNs : Int) (hasErrorHandler : Bool) : System ClientConductor (World × Call) :=
  .ofStep (· = .init driverTimeoutNs resourceLingerTimeoutNs hasErrorHandler) fun cc a => cc.call a.1 a.2

end ClientConductor

end AeronGo.Conductor
