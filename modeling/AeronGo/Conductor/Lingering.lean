import AeronGo.Conductor.Events

/-!
# Resources that linger

The calls that send on the channel of lingering resources and those that receive from it, one after the other and
each at its time. What else a conductor does leaves the channel alone, and may be anything.
-/

namespace AeronGo.Conductor

open Machine Atomic Driver

/-- A conductor, the time of its last call, and all that was sent on the channel. -/
structure Lingering where
  cc : ClientConductor
  clock : Int
  released : List LingerResource

inductive LingerCall where
  | releasePublication (regID : Int)
  | releaseSubscription (regID : Int) (images : List Image)
  | unavailableImage (corrID subscriptionRegistrationID : Int)
  | checkManagedResources
  | forceCloseResources
  | other (cc : ClientConductor)

namespace LingerCall

/-- Every read of the clock gives the same time. -/
def atTime (w : World) (now : Int) : World := { w with now := fun _ => now }

/-- The conductor after a call. A release may also return an error. -/
def run (w : World) (now : Int) (cc : ClientConductor) : LingerCall → Except Stop ClientConductor
  | releasePublication regID => do
    let (_, cc) ← cc.releasePublication (atTime w now) regID
    return cc
  | releaseSubscription regID images => do
    let (_, cc) ← cc.releaseSubscription (atTime w now) regID images
    return cc
  | unavailableImage corrID subscriptionRegistrationID =>
    cc.onUnavailableImage (atTime w now) corrID subscriptionRegistrationID
  | checkManagedResources => cc.onCheckManagedResources w now
  | forceCloseResources => cc.forceCloseResources w
  | other cc' => .ok cc'

/-- What a call sent, from the channel before and after it. -/
def sends (before after : List LingerResource) : LingerCall → List LingerResource
  | checkManagedResources => []
  | forceCloseResources => []
  | _ => after.drop before.length

/-- The channel and what it depends on are as they were. -/
structure LeavesAlone (a b : ClientConductor) : Prop where
  lingeringResources : b.lingeringResources = a.lingeringResources
  closedResources : b.closedResources = a.closedResources
  resourceLingerTimeoutNs : b.resourceLingerTimeoutNs = a.resourceLingerTimeoutNs
  hasErrorHandler : b.hasErrorHandler = a.hasErrorHandler

instance (a b : ClientConductor) : Decidable (LeavesAlone a b) :=
  decidable_of_iff (b.lingeringResources = a.lingeringResources ∧ b.closedResources = a.closedResources ∧
      b.resourceLingerTimeoutNs = a.resourceLingerTimeoutNs ∧ b.hasErrorHandler = a.hasErrorHandler)
    ⟨fun h => ⟨h.1, h.2.1, h.2.2.1, h.2.2.2⟩, fun h => ⟨h.1, h.2, h.3, h.4⟩⟩

def Allowed (cc : ClientConductor) : LingerCall → Prop
  | other cc' => LeavesAlone cc cc'
  | _ => True

instance (cc : ClientConductor) : (call : LingerCall) → Decidable (call.Allowed cc)
  | other cc' => inferInstanceAs (Decidable (LeavesAlone cc cc'))
  | releasePublication _ => instDecidableTrue
  | releaseSubscription _ _ | unavailableImage _ _ | checkManagedResources | forceCloseResources => instDecidableTrue

end LingerCall

namespace Lingering

/-- A call at a time that returns. Time does not go back. -/
def step (s : Lingering) : World × Int × LingerCall → Option Lingering
  | (w, now, call) =>
    if s.clock ≤ now then
      match call.run w now s.cc with
      | .ok cc => some ⟨cc, now, s.released ++ call.sends s.cc.lingeringResources cc.lingeringResources⟩
      | .error _ => none
    else none

/-- Nothing lingers yet. -/
def Start (s : Lingering) : Prop := s.cc.lingeringResources = [] ∧ s.cc.closedResources = [] ∧ s.released = []

def system : System Lingering (World × Int × LingerCall) :=
  (System.ofStep Start step).guard fun s a => a.2.2.Allowed s.cc

end Lingering

end AeronGo.Conductor
