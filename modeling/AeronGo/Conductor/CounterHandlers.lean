import AeronGo.Machine.Run
import AeronGo.Machine.Slice

/-!
# Handlers of counters

The handlers of available and of unavailable counters that `aeron/clientconductor.go` keeps, each with the registration id
that it was given when it was added. A handler is an interface value, compared with `==`; the ids are drawn from the counter
of the driver's ring.
-/

namespace AeronGo.Conductor

open Machine

variable {A U : Type} [DecidableEq A] [DecidableEq U]

structure CounterHandlers (A U : Type) where
  availableCounterHandlers : List (Int × A)
  unavailableCounterHandlers : List (Int × U)

variable (cc : CounterHandlers A U)

namespace CounterHandlers

/-- `Init`. -/
def init : CounterHandlers A U := ⟨[], []⟩

/-- The loop of the remove functions: the last pair takes the place of the first one that matches. -/
def removeFirst {H : Type} (isMatch : Int × H → Bool) (pairs : List (Int × H)) : Bool × List (Int × H) :=
  let (removed, pairs) := Slice.removeFirst isMatch pairs
  (removed.isSome, pairs)

def addAvailableCounterHandler (registrationID : Int) (handler : A) : CounterHandlers A U :=
  { cc with availableCounterHandlers := cc.availableCounterHandlers ++ [(registrationID, handler)] }

def removeAvailableCounterHandlerById (registrationId : Int) : Bool × CounterHandlers A U :=
  let (removed, pairs) := removeFirst (fun pair => pair.1 = registrationId) cc.availableCounterHandlers
  (removed, { cc with availableCounterHandlers := pairs })

def removeAvailableCounterHandler (handler : A) : Bool × CounterHandlers A U :=
  let (removed, pairs) := removeFirst (fun pair => pair.2 = handler) cc.availableCounterHandlers
  (removed, { cc with availableCounterHandlers := pairs })

def addUnavailableCounterHandler (registrationID : Int) (handler : U) : CounterHandlers A U :=
  { cc with unavailableCounterHandlers := cc.unavailableCounterHandlers ++ [(registrationID, handler)] }

def removeUnavailableCounterHandlerById (registrationId : Int) : Bool × CounterHandlers A U :=
  let (removed, pairs) := removeFirst (fun pair => pair.1 = registrationId) cc.unavailableCounterHandlers
  (removed, { cc with unavailableCounterHandlers := pairs })

/-- `RemoveUnavailableCounterHandler`. It compares `&pair.handler` with `&handler`, the addresses of a field and of its own
parameter: two variables, so no pair matches. -/
def removeUnavailableCounterHandler (_handler : U) : Bool × CounterHandlers A U :=
  let (removed, pairs) := removeFirst (fun _ => false) cc.unavailableCounterHandlers
  (removed, { cc with unavailableCounterHandlers := pairs })

/-- The calls of `OnAvailableCounter`, in their order. -/
def onAvailableCounter (registrationId counterId : Int) : List (A × Int × Int) :=
  cc.availableCounterHandlers.map fun pair => (pair.2, registrationId, counterId)

/-- The calls of `OnUnavailableCounter`. -/
def onUnavailableCounter (registrationId counterId : Int) : List (U × Int × Int) :=
  cc.unavailableCounterHandlers.map fun pair => (pair.2, registrationId, counterId)

end CounterHandlers

/-! ## In use -/

inductive HandlerCall (A U : Type) where
  | addAvailable (registrationID : Int) (handler : A)
  | removeAvailableById (registrationId : Int)
  | removeAvailable (handler : A)
  | addUnavailable (registrationID : Int) (handler : U)
  | removeUnavailableById (registrationId : Int)
  | removeUnavailable (handler : U)

/-- A call: what a removal returns, and the handlers. -/
def CounterHandlers.perform : HandlerCall A U → Option Bool × CounterHandlers A U
  | .addAvailable registrationID handler => (none, cc.addAvailableCounterHandler registrationID handler)
  | .removeAvailableById registrationId =>
    let (removed, cc) := cc.removeAvailableCounterHandlerById registrationId
    (some removed, cc)
  | .removeAvailable handler =>
    let (removed, cc) := cc.removeAvailableCounterHandler handler
    (some removed, cc)
  | .addUnavailable registrationID handler => (none, cc.addUnavailableCounterHandler registrationID handler)
  | .removeUnavailableById registrationId =>
    let (removed, cc) := cc.removeUnavailableCounterHandlerById registrationId
    (some removed, cc)
  | .removeUnavailable handler =>
    let (removed, cc) := cc.removeUnavailableCounterHandler handler
    (some removed, cc)

/-- What is registered: the pairs that were added and not removed since. -/
structure Registrations (A U : Type) where
  available : List (Int × A)
  unavailable : List (Int × U)

namespace Registrations

/-- Take a registration out: whether it was there, and the others. -/
def without {H : Type} (isMatch : Int × H → Bool) (pairs : List (Int × H)) : Bool × List (Int × H) :=
  (pairs.any isMatch, pairs.filter fun pair => !isMatch pair)

/-- What a call should do. -/
def perform (r : Registrations A U) : HandlerCall A U → Option Bool × Registrations A U
  | .addAvailable registrationID handler => (none, { r with available := r.available ++ [(registrationID, handler)] })
  | .removeAvailableById registrationId =>
    let (present, pairs) := without (fun pair => pair.1 = registrationId) r.available
    (some present, { r with available := pairs })
  | .removeAvailable handler =>
    let (present, pairs) := without (fun pair => pair.2 = handler) r.available
    (some present, { r with available := pairs })
  | .addUnavailable registrationID handler =>
    (none, { r with unavailable := r.unavailable ++ [(registrationID, handler)] })
  | .removeUnavailableById registrationId =>
    let (present, pairs) := without (fun pair => pair.1 = registrationId) r.unavailable
    (some present, { r with unavailable := pairs })
  | .removeUnavailable handler =>
    let (present, pairs) := without (fun pair => pair.2 = handler) r.unavailable
    (some present, { r with unavailable := pairs })

/-- A pair that is added has an id and a handler of its own. -/
def IsNew (r : Registrations A U) : HandlerCall A U → Prop
  | .addAvailable registrationID handler => ∀ pair ∈ r.available, pair.1 ≠ registrationID ∧ pair.2 ≠ handler
  | .addUnavailable registrationID handler => ∀ pair ∈ r.unavailable, pair.1 ≠ registrationID ∧ pair.2 ≠ handler
  | _ => True

end Registrations

/-- Runs of calls, beside what they should have come to. -/
def handlerSystem (A U : Type) [DecidableEq A] [DecidableEq U] :
    System (CounterHandlers A U × Registrations A U) (HandlerCall A U) where
  init s := s = (.init, ⟨[], []⟩)
  next s call t := s.2.IsNew call ∧ t = ((s.1.perform call).2, (s.2.perform call).2)

end AeronGo.Conductor
