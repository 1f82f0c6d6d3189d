import AeronGo.Atomic.Buffer
import AeronGo.Driver.Destination
import AeronGo.Machine.Slice

/-!
# The client conductor

The registrations of `aeron/clientconductor.go` and the objects that they hand out. Objects live in lists
that only grow, and a reference to one is its index; `nextID` numbers log buffers and images. `commands` are
what was written to the driver, `closedResources` what was unmapped, and `imageCalls` the calls of image
handlers: history that no function reads. Positions, terms and the handlers themselves are left out.
-/

namespace AeronGo.Conductor

open Machine Atomic Driver

inductive RegistrationStatus where
  | awaitingMediaDriver
  | registeredMediaDriver
  | erroredMediaDriver
deriving DecidableEq, Repr

structure LogBuffers where
  id : Nat
  logFileName : String
  refCount : Int
deriving DecidableEq, Repr

structure Image where
  id : Nat
  sessionID : Int
  correlationID : Int
deriving DecidableEq, Repr

structure Publication where
  channel : String
  regID : Int
  originalRegID : Int
  streamID : Int
  sessionID : Int
  posLimitCounterID : Int
  channelStatusIndicatorID : Int
  isClosed : Bool
deriving DecidableEq, Repr

structure Subscription where
  channel : String
  registrationID : Int
  streamID : Int
  channelStatusID : Int
  images : List Image
  isClosed : Bool
  /-- The handlers are not nil. -/
  availableImageHandler : Bool
  unavailableImageHandler : Bool
deriving DecidableEq, Repr

structure Counter where
  registrationId : Int
  counterId : Int
  isClosed : Bool
deriving DecidableEq, Repr

structure PublicationState where
  regID : Int
  origRegID : Int
  timeOfRegistration : Int
  streamID : Int
  sessionID : Int
  posLimitCounterID : Int
  channelStatusIndicatorID : Int
  errorCode : Int
  status : RegistrationStatus
  channel : String
  errorMessage : String
  buffers : Option LogBuffers
  publication : Option Nat
deriving DecidableEq, Repr

structure SubscriptionState where
  regID : Int
  timeOfRegistration : Int
  streamID : Int
  errorCode : Int
  status : RegistrationStatus
  channel : String
  errorMessage : String
  availableImageHandler : Bool
  unavailableImageHandler : Bool
  subscription : Option Nat
deriving DecidableEq, Repr

structure CounterState where
  timeOfRegistration : Int
  counterId : Int
  errorCode : Int
  errorMessage : String
  status : RegistrationStatus
  counter : Option Nat
deriving DecidableEq, Repr

/-- What lingers. An image that was not found is nil. -/
inductive Resource where
  | nil
  | buffers (id : Nat)
  | image (id : Nat)
deriving DecidableEq, Repr

structure LingerResource where
  lastTime : Int
  resource : Resource
deriving DecidableEq, Repr

/-- The capacity of the channel of lingering resources. -/
def lingerCapacity : Nat := 1024

/-- A call of an image handler. -/
inductive ImageCall where
  | available (registrationID : Int) (image : Image)
  | unavailable (registrationID : Int) (image : Option Image)
deriving DecidableEq, Repr

structure ClientConductor where
  pubs : List PublicationState
  subs : List SubscriptionState
  /-- By registration id; `none` is the nil map. -/
  counters : Option (List (Int × CounterState))
  publications : List Publication
  subscriptions : List Subscription
  counterObjects : List Counter
  lingeringResources : List LingerResource
  closedResources : List Resource
  running : Bool
  driverActive : Bool
  driverTimeoutNs : Int
  resourceLingerTimeoutNs : Int
  hasErrorHandler : Bool
  errors : List String
  nextID : Nat
  commands : List Command
  imageCalls : List ImageCall
deriving DecidableEq, Repr

/-- A conductor after `Init`, with nothing registered. -/
def ClientConductor.init (driverTimeoutNs resourceLingerTimeoutNs : Int) (hasErrorHandler : Bool) : ClientConductor where
  pubs := []
  subs := []
  counters := some []
  publications := []
  subscriptions := []
  counterObjects := []
  lingeringResources := []
  closedResources := []
  running := true
  driverActive := true
  driverTimeoutNs := driverTimeoutNs
  resourceLingerTimeoutNs := resourceLingerTimeoutNs
  hasErrorHandler := hasErrorHandler
  errors := []
  nextID := 0
  commands := []
  imageCalls := []

/-- What a call finds: whether the ring takes a command, the time it reads for a registration, and the error of
unmapping a resource. -/
structure World where
  takes : Command → Bool
  now : Int → Int
  closeError : Resource → Option String

/-- A driver that takes every command, or none; the clock stands, and every resource can be unmapped. -/
def ClientConductor.world (takes : Bool) : World := ⟨fun _ => takes, fun _ => 5, fun _ => none⟩

/-- An error, if any, and the conductor. -/
abbrev Outcome := Except Stop (Option String × ClientConductor)

namespace ClientConductor

variable (w : World) (cc : ClientConductor)

def getDriverStatus : Option String :=
  if cc.driverActive then none else some "driver is inactive"

/-- `writeCommandToDriver`. -/
def writeCommandToDriver (command : Command) : Option String × ClientConductor :=
  if w.takes command then (none, { cc with commands := cc.commands ++ [command] })
  else (some "couldn't write command to driver", cc)

/-- A send on the channel of lingering resources. It waits for a receiver if the channel is full. -/
def linger (lastTime : Int) (resource : Resource) : Except Stop ClientConductor :=
  if cc.lingeringResources.length < lingerCapacity then
    .ok { cc with lingeringResources := cc.lingeringResources ++ [⟨lastTime, resource⟩] }
  else .error .unfinished

def onError (err : String) : Except Stop ClientConductor :=
  if cc.hasErrorHandler then .ok { cc with errors := cc.errors ++ [err] } else .error .fatal

end ClientConductor

end AeronGo.Conductor
