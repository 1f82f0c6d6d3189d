/-!
# Destinations of a subscription

`AddDestination` and `RemoveDestination` of `aeron/subscription.go`, through the conductor and the driver
proxy to the command ring. Each layer returns an error, or drops the one it got: `AddRcvDestination` of
the proxy does. What a call finds is its `Link`; `ring` are the commands that were written.
-/

namespace AeronGo.Driver

inductive Command where
  | addPublication (correlationID : Int) (channel : String) (streamID : Int)
  | addExclusivePublication (correlationID : Int) (channel : String) (streamID : Int)
  | removePublication (registrationID : Int)
  | addSubscription (correlationID : Int) (channel : String) (streamID : Int)
  | removeSubscription (registrationID : Int)
  | addCounter (correlationID typeId : Int)
  | removeCounter (registrationID : Int)
  | addRcvDestination (registrationID : Int) (channel : String)
  | removeRcvDestination (registrationID : Int) (channel : String)
deriving DecidableEq, Repr

structure Link where
  isSubscriptionClosed : Bool
  isDriverActive : Bool
  /-- `Write` of the command ring finds room. -/
  ringTakes : Bool

/-- An error, if any, and the ring. -/
abbrev Called := Option String × List Command

variable (link : Link) (ring : List Command)

/-- `writeCommandToDriver`. -/
def writeCommandToDriver (command : Command) : Called :=
  if link.ringTakes then (none, ring ++ [command]) else (some "couldn't write command to driver", ring)

namespace Proxy

def addRcvDestination (registrationID : Int) (channel : String) : Called :=
  match writeCommandToDriver link ring (.addRcvDestination registrationID channel) with
  | (none, ring) => (none, ring)
  -- the error is not returned
  | (some _, ring) => (none, ring)

def removeRcvDestination (registrationID : Int) (channel : String) : Called :=
  writeCommandToDriver link ring (.removeRcvDestination registrationID channel)

end Proxy

/-- `getDriverStatus` before a command of the conductor. -/
def ifDriverActive (call : Called) : Called :=
  if link.isDriverActive then call else (some "driver is inactive", ring)

namespace Conductor

def addRcvDestination (registrationID : Int) (channel : String) : Called :=
  ifDriverActive link ring (Proxy.addRcvDestination link ring registrationID channel)

def removeRcvDestination (registrationID : Int) (channel : String) : Called :=
  ifDriverActive link ring (Proxy.removeRcvDestination link ring registrationID channel)

end Conductor

namespace Subscription

def addDestination (registrationID : Int) (endpointChannel : String) : Called :=
  if link.isSubscriptionClosed then (some "subscription is closed", ring)
  else Conductor.addRcvDestination link ring registrationID endpointChannel

def removeDestination (registrationID : Int) (endpointChannel : String) : Called :=
  if link.isSubscriptionClosed then (some "subscription is closed", ring)
  else Conductor.removeRcvDestination link ring registrationID endpointChannel

end Subscription

end AeronGo.Driver
