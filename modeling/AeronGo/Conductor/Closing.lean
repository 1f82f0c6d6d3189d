import AeronGo.Conductor.Events

/-!
# A subscription that is closed while events arrive

`Subscription.Close` marks the subscription, takes and empties its image list, and calls `releaseSubscription`
under the conductor's lock. Between these steps the conductor goes on with image events of the subscription and
with the check of lingering resources. In the source, `ImageList.Empty` is a load and a store, with no lock; here
taking and emptying the list is one step, so an event that comes between the two is not among the runs. `created`
are the images made for the subscription, which no step reads.
-/

namespace AeronGo.Conductor

open Machine Atomic Driver

/-- What lingers or was closed. -/
def ClientConductor.settled (cc : ClientConductor) : List Resource :=
  cc.lingeringResources.map (·.resource) ++ cc.closedResources

/-- How far the `Close` has come. -/
inductive Phase where
  | idle
  | marked
  | taken (images : List Image)
  | returned (err : Option String)
deriving DecidableEq, Repr

structure Closing where
  cc : ClientConductor
  phase : Phase
  created : List Nat
deriving DecidableEq, Repr

namespace Closing

inductive Action where
  | available (sessionID corrID : Int)
  | unavailable (w : World) (corrID : Int)
  | check (w : World) (now : Int)
  | mark
  | take
  | release (w : World)

variable (regID : Int) (ref : Nat)

def step (s : Closing) : Action → Option Closing
  | .available sessionID corrID =>
    (s.cc.onAvailableImage sessionID regID corrID).toOption.map fun cc => { s with
      cc := cc
      created := if cc.nextID = s.cc.nextID then s.created else s.created ++ [s.cc.nextID] }
  | .unavailable w corrID => (s.cc.onUnavailableImage w corrID regID).toOption.map fun cc => { s with cc := cc }
  | .check w now => (s.cc.onCheckManagedResources w now).toOption.map fun cc => { s with cc := cc }
  | .mark =>
    match s.phase, s.cc.subscriptions[ref]? with
    | .idle, some subscription =>
      if subscription.isClosed then none
      else some { s with cc := s.cc.markSubscriptionClosed ref subscription, phase := .marked }
    | _, _ => none
  | .take =>
    match s.phase with
    | .marked =>
      let (images, cc) := s.cc.emptyImages ref
      some { s with cc := cc, phase := .taken images }
    | _ => none
  | .release w =>
    match s.phase with
    | .taken images =>
      (s.cc.releaseSubscription w regID images).toOption.map fun (err, cc) =>
        { s with cc := cc, phase := .returned err }
    | _ => none

/-- The image list of the subscription. -/
def images (s : Closing) : List Image := s.cc.subscriptions[ref]?.elim [] (·.images)

/-- A subscription that has just become ready, in any conductor. -/
structure Ready (s : Closing) : Prop where
  distinct : (s.cc.subs.map (·.regID)).Nodup
  registered : ∃ sub ∈ s.cc.subs, sub.regID = regID ∧ sub.subscription = some ref
  open_ : ∃ subscription, s.cc.subscriptions[ref]? = some subscription ∧ subscription.registrationID = regID ∧
    subscription.isClosed = false ∧ subscription.images = []
  active : s.cc.driverActive = true
  numbered : ∀ id, Resource.image id ∈ s.cc.settled → id < s.cc.nextID
  idle : s.phase = .idle
  created : s.created = []

def system : System Closing Action := .ofStep (Ready regID ref) (step regID ref)

end Closing

end AeronGo.Conductor
