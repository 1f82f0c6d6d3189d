import AeronGo.Laws.Conductor.Calls

/-!
# What a conductor keeps

As long as every call succeeds, the registrations refer to the open publications, subscriptions and counters, one to
one, and each closed one was removed from the driver once (`Machine.Registry.Kept`). Every log buffer and image has
one owner: a registration, a subscription or the channel of lingering resources. A `Close` that fails
leaves the registration of a closed object, so `Accounts` is not kept by all runs; `Listed` is.
-/

namespace AeronGo.Conductor.ClientConductor

open Machine Machine.Registry Atomic Driver

variable {w : World} {cc cc' : ClientConductor}

/-! ## The registries -/

/-- The ids of the publication registrations, with the publications they refer to. -/
def pubEntries (cc : ClientConductor) : List (Int × Option Nat) := cc.pubs.map fun pub => (pub.regID, pub.publication)

/-- The ids of the subscription registrations, with the subscriptions they refer to. -/
def subEntries (cc : ClientConductor) : List (Int × Option Nat) := cc.subs.map fun sub => (sub.regID, sub.subscription)

/-- The ids of the counter registrations, with the counters they refer to. -/
def counterEntries (cc : ClientConductor) : List (Int × Option Nat) :=
  (cc.counters.getD []).map fun entry => (entry.1, entry.2.counter)

/-- The publications that were handed out, by id, and whether they are closed. -/
def publicationObjects (cc : ClientConductor) : List (Int × Bool) :=
  cc.publications.map fun publication => (publication.regID, publication.isClosed)

def subscriptionObjects (cc : ClientConductor) : List (Int × Bool) :=
  cc.subscriptions.map fun subscription => (subscription.registrationID, subscription.isClosed)

def counterObjectsOf (cc : ClientConductor) : List (Int × Bool) :=
  cc.counterObjects.map fun counter => (counter.registrationId, counter.isClosed)

/-- How often a command was sent. -/
def sent (cc : ClientConductor) (command : Command) : Nat := cc.commands.count command

/-- Registrations and open publications match, and a closed publication was removed once. -/
structure PubsSound (cc : ClientConductor) : Prop where
  kept : Kept cc.pubEntries cc.publicationObjects fun id => cc.sent (.removePublication id)

/-- The same of subscriptions, and a closed one has no images. -/
structure SubsSound (cc : ClientConductor) : Prop where
  kept : Kept cc.subEntries cc.subscriptionObjects fun id => cc.sent (.removeSubscription id)
  emptied : ∀ subscription ∈ cc.subscriptions, subscription.isClosed = true → subscription.images = []

/-- The same of counters. -/
structure CountersSound (cc : ClientConductor) : Prop where
  kept : Kept cc.counterEntries cc.counterObjectsOf fun id => cc.sent (.removeCounter id)

theorem PubsSound.congr (h : PubsSound cc) (hpubs : cc'.pubs = cc.pubs) (hobjects : cc'.publications = cc.publications)
    (hsent : ∀ id, cc'.sent (.removePublication id) = cc.sent (.removePublication id)) : PubsSound cc' := by
  refine ⟨?_⟩
  rw [pubEntries, publicationObjects, hpubs, hobjects, funext hsent]
  exact h.kept

theorem SubsSound.congr (h : SubsSound cc) (hsubs : cc'.subs = cc.subs) (hobjects : cc'.subscriptions = cc.subscriptions)
    (hsent : ∀ id, cc'.sent (.removeSubscription id) = cc.sent (.removeSubscription id)) : SubsSound cc' := by
  refine ⟨?_, hobjects ▸ h.emptied⟩
  rw [subEntries, subscriptionObjects, hsubs, hobjects, funext hsent]
  exact h.kept

theorem CountersSound.congr (h : CountersSound cc) (hcounters : cc'.counters = cc.counters)
    (hobjects : cc'.counterObjects = cc.counterObjects)
    (hsent : ∀ id, cc'.sent (.removeCounter id) = cc.sent (.removeCounter id)) : CountersSound cc' := by
  refine ⟨?_⟩
  rw [counterEntries, counterObjectsOf, hcounters, hobjects, funext hsent]
  exact h.kept

/-- A command more. -/
theorem sent_append {commands : List Command} (h : cc'.commands = cc.commands ++ commands) (command : Command) :
    cc'.sent command = cc.sent command + commands.count command := by
  rw [sent, h, List.count_append, sent]

/-- A command that is sent counts once more. -/
theorem sent_self {command : Command} (h : cc'.commands = cc.commands ++ [command]) :
    cc'.sent command = cc.sent command + 1 := by
  rw [sent_append h, List.count_singleton, beq_self_eq_true, if_pos rfl]

/-- The counts of other commands stay. -/
theorem sent_other {command other : Command} (h : cc'.commands = cc.commands ++ [command]) (hne : command ≠ other) :
    cc'.sent other = cc.sent other := by
  rw [sent_append h, List.count_singleton, if_neg (by simpa using hne), Nat.add_zero]

/-! ## The resources -/

/-- The log buffers of registrations, the images of subscriptions, and what lingers. -/
def mappedBuffers (cc : ClientConductor) : List Resource :=
  cc.pubs.flatMap fun pub => pub.buffers.toList.map fun buffers => .buffers buffers.id

/-- The images in the lists of the subscriptions. -/
def heldImages (cc : ClientConductor) : List Resource :=
  cc.subscriptions.flatMap fun subscription => subscription.images.map fun image => .image image.id

/-- What waits in the channel to be closed. -/
def lingering (cc : ClientConductor) : List Resource := cc.lingeringResources.map (·.resource)

/-- Everything that is mapped and not closed yet, at the place that owns it. -/
def resources (cc : ClientConductor) : List Resource := cc.mappedBuffers ++ (cc.heldImages ++ cc.lingering)

theorem count_resources (cc : ClientConductor) (resource : Resource) : cc.resources.count resource =
    cc.mappedBuffers.count resource + cc.heldImages.count resource + cc.lingering.count resource := by
  rw [resources, List.count_append, List.count_append, Nat.add_assoc]

/-- The number of a resource has been given out. -/
def Numbered (n : Nat) : Resource → Prop
  | .nil => True
  | .buffers id => id < n
  | .image id => id < n

/-- Everything that is mapped is numbered below the next number and owned once. -/
structure ResourcesSound (cc : ClientConductor) : Prop where
  single : ∀ resource, resource ≠ .nil → cc.resources.count resource ≤ 1
  numbered : ∀ resource ∈ cc.resources, Numbered cc.nextID resource

theorem Numbered.mono {m n : Nat} (hle : m ≤ n) {resource : Resource} (h : Numbered m resource) :
    Numbered n resource := by
  cases resource with
  | nil => trivial
  | buffers id | image id => exact Nat.lt_of_lt_of_le h hle

/-- Resources go. -/
theorem ResourcesSound.of_count (h : ResourcesSound cc)
    (hcount : ∀ resource, resource ≠ .nil → cc'.resources.count resource ≤ cc.resources.count resource)
    (hid : cc'.nextID = cc.nextID) : ResourcesSound cc' := by
  refine ⟨fun resource hne => Nat.le_trans (hcount resource hne) (h.single resource hne), fun resource hmem => ?_⟩
  by_cases hnil : resource = .nil
  · rw [hnil]
    trivial
  · rw [hid]
    exact h.numbered resource (List.count_pos_iff.mp
      (Nat.lt_of_lt_of_le (List.count_pos_iff.mpr hmem) (hcount resource hnil)))

/-- Resources change hands. -/
theorem ResourcesSound.of_perm (h : ResourcesSound cc) (hperm : cc'.resources.Perm cc.resources)
    (hid : cc'.nextID = cc.nextID) : ResourcesSound cc' :=
  h.of_count (fun resource _ => Nat.le_of_eq (hperm.count_eq resource)) hid

/-! ## The invariant -/

/-- What is kept of the objects and the resources when every call succeeds. -/
structure Accounts (cc : ClientConductor) : Prop where
  active : cc.driverActive = true
  running : cc.running = true
  pubs : PubsSound cc
  subs : SubsSound cc
  counters : CountersSound cc
  resources : ResourcesSound cc
  /-- Every counter was asked for. -/
  known : ∀ id ∈ cc.counterEntries.map Prod.fst, cc.isKnown id = true

/-- And what any run keeps of the registrations. -/
structure Sound (cc : ClientConductor) : Prop extends Accounts cc where
  listed : Listed cc

/-- An update that keeps a field keeps the list of that field. -/
theorem map_set_of_eq {α β : Type} {f : α → β} {xs : List α} {i : Nat} {x y : α} (hx : xs[i]? = some x)
    (hf : f y = f x) : (xs.set i y).map f = xs.map f := by
  refine List.ext_getElem? fun j => ?_
  rw [List.map_set, List.getElem?_set]
  split
  next hij =>
    subst hij
    obtain ⟨hlt, heq⟩ := List.getElem?_eq_some_iff.mp hx
    rw [List.length_map, if_pos hlt, List.getElem?_map, hx, Option.map_some, hf]
  next => rfl

/-- What an entry of a list contributes, apart from the others. -/
theorem flatMap_set_perm {α β : Type} (f : α → List β) {xs : List α} {i : Nat} {x : α} (hx : xs[i]? = some x) (y : α) :
    (f y ++ xs.flatMap f).Perm (f x ++ (xs.set i y).flatMap f) := by
  induction xs generalizing i with
  | nil => cases hx
  | cons z xs ih =>
    cases i with
    | zero =>
      cases hx
      simp only [List.set_cons_zero, List.flatMap_cons, ← List.append_assoc]
      exact List.perm_append_comm.append_right _
    | succ i =>
      simp only [List.set_cons_succ, List.flatMap_cons, ← List.append_assoc]
      refine (List.perm_append_comm.append_right _).trans ?_
      refine List.Perm.trans ?_ (List.perm_append_comm.append_right _)
      rw [List.append_assoc, List.append_assoc]
      exact (ih hx).append_left _

/-! ## Closing a publication -/

section

variable {front back : List PublicationState} {pub : PublicationState} {ref : Nat} {publication : Publication}
  {buffers : LogBuffers}

/-- The conductor after the close of a publication. -/
def afterClosePublication (w : World) (cc : ClientConductor) (i ref : Nat) (publication : Publication)
    (buffers : LogBuffers) : ClientConductor :=
  { cc with
    publications := cc.publications.set ref { publication with isClosed := true }
    commands := cc.commands ++ [.removePublication publication.regID]
    lingeringResources := cc.lingeringResources ++ [⟨w.now publication.regID, .buffers buffers.id⟩]
    pubs := Slice.swapRemove cc.pubs i }

/-- Closing an open publication, with a driver that is active and takes the command. -/
theorem closePublication_eq (hactive : cc.driverActive = true) (htakes : w.takes (.removePublication pub.regID) = true)
    (hnodup : (cc.pubs.map (·.regID)).Nodup) (hsplit : cc.pubs = front ++ pub :: back)
    (hobject : cc.publications[ref]? = some publication) (hopen : publication.isClosed = false)
    (hid : publication.regID = pub.regID) (hbuffers : pub.buffers = some buffers) (honce : buffers.refCount = 1) :
    cc.closePublication w ref = if cc.lingeringResources.length < lingerCapacity then
      .ok (none, afterClosePublication w cc front.length ref publication buffers) else .error .unfinished := by
  obtain ⟨hfront, hback⟩ := others_of_nodup (hsplit ▸ hnodup)
  rw [← hid] at hfront hback htakes
  have hstatus : getDriverStatus { cc with
      publications := cc.publications.set ref { publication with isClosed := true } } = none := if_pos hactive
  simp only [closePublication, hobject, hopen, Bool.false_eq_true, ↓reduceIte, releasePublication, hstatus]
  rw [hsplit, releaseEach_one hfront (decide_eq_true hid.symm) hback]
  simp only [releasePublicationState, writeCommandToDriver, ← hid, htakes, ↓reduceIte, hbuffers, honce, Int.sub_self,
    linger]
  split
  · simp only [afterClosePublication, hsplit]
    rfl
  · rfl

/-- The publication of a registration, and its log. -/
theorem PubsSound.handedOut (h : PubsSound cc) (hlisted : Listed cc) (hpub : pub ∈ cc.pubs)
    (href : pub.publication = some ref) :
    ∃ publication buffers, cc.publications[ref]? = some publication ∧ publication.isClosed = false ∧
      publication.regID = pub.regID ∧ pub.buffers = some buffers ∧ buffers.refCount = 1 := by
  obtain ⟨publication, hpublication, hopen, hid⟩ := h.kept.object hpub href
  have hpub := hlisted.pubs.each pub hpub
  obtain ⟨buffers, hbuffers⟩ := Option.isSome_iff_exists.mp (hpub.mapped (.inr (by rw [href]; rfl)))
  exact ⟨publication, buffers, hpublication, hopen, hid, hbuffers, hpub.once buffers hbuffers⟩

/-- No two registrations have one id. -/
theorem PubsSound.distinct (h : PubsSound cc) : (cc.pubs.map (·.regID)).Nodup := by
  have hnodup := h.kept.distinct
  rwa [pubEntries, List.map_map] at hnodup

/-- What the close of publications changes, and what it does not. -/
structure ClosesPubs (a b : ClientConductor) : Prop where
  active : b.driverActive = a.driverActive
  subs : b.subs = a.subs
  subscriptions : b.subscriptions = a.subscriptions
  counters : b.counters = a.counters
  counterObjects : b.counterObjects = a.counterObjects
  regIDs : b.publications.map (·.regID) = a.publications.map (·.regID)
  nextID : b.nextID = a.nextID
  resources : b.resources.Perm a.resources
  subscriptionsSent : ∀ id, b.sent (.removeSubscription id) = a.sent (.removeSubscription id)
  countersSent : ∀ id, b.sent (.removeCounter id) = a.sent (.removeCounter id)

/-- What closing a publication does to the publications that were handed out. -/
theorem afterClosePublication_closes (hsplit : cc.pubs = front ++ pub :: back)
    (hobject : cc.publications[ref]? = some publication) (hbuffers : pub.buffers = some buffers) :
    ClosesPubs cc (afterClosePublication w cc front.length ref publication buffers) := by
  refine ⟨rfl, rfl, rfl, rfl, rfl, map_set_of_eq hobject rfl, rfl, ?_, fun id => sent_other rfl nofun, fun id => sent_other rfl nofun⟩
  have hbuf : cc.mappedBuffers.Perm (.buffers buffers.id ::
      (afterClosePublication w cc front.length ref publication buffers).mappedBuffers) := by
    have hswap := (Slice.cons_swapRemove_perm (Slice.getElem?_middle front back pub)).symm.flatMap_right
      fun pub : PublicationState => pub.buffers.toList.map fun buffers => Resource.buffers buffers.id
    rw [List.flatMap_cons, hbuffers, ← hsplit] at hswap
    exact hswap
  have hlinger : (afterClosePublication w cc front.length ref publication buffers).lingering =
      cc.lingering ++ [.buffers buffers.id] := List.map_append
  have himages : (afterClosePublication w cc front.length ref publication buffers).heldImages = cc.heldImages := rfl
  refine List.perm_iff_count.mpr fun resource => ?_
  rw [count_resources, count_resources, hbuf.count_eq, hlinger, himages, List.count_append,
    List.count_singleton, List.count_cons]
  omega

/-- Closing a publication keeps registrations and publications in step. -/
theorem PubsSound.closed (h : PubsSound cc) (hsplit : cc.pubs = front ++ pub :: back) (href : pub.publication = some ref)
    (hid : publication.regID = pub.regID) :
    PubsSound (afterClosePublication w cc front.length ref publication buffers) := by
  refine ⟨?_⟩
  have hperm := (Slice.cons_swapRemove_perm (Slice.getElem?_middle front back pub)).map fun p => (p.regID, p.publication)
  have hobjects : (afterClosePublication w cc front.length ref publication buffers).publicationObjects =
      cc.publicationObjects.set ref (pub.regID, true) := by
    rw [publicationObjects, afterClosePublication, List.map_set, hid]
    rfl
  rw [hobjects]
  refine h.kept.close ?_ (sent_self ?_) fun id hne => sent_other rfl fun heq => hne ?_
  · rw [pubEntries, pubEntries, afterClosePublication, hsplit]
    simpa only [List.map_cons, href] using hperm
  · exact congrArg (fun id => cc.commands ++ [.removePublication id]) hid
  · exact (Command.removePublication.inj heq).symm.trans hid

end

/-! ## Closing a subscription -/

/-- The images linger if there is room for all of them. -/
theorem releaseImages_eq (sub : SubscriptionState) (hasHandler : Bool) (images : List Image)
    (hcapacity : cc.lingeringResources.length ≤ lingerCapacity) :
    releaseImages w sub hasHandler images cc =
      if cc.lingeringResources.length + images.length ≤ lingerCapacity then .ok { cc with
        imageCalls := cc.imageCalls ++ if hasHandler then images.map fun image => .unavailable sub.regID (some image) else []
        lingeringResources := cc.lingeringResources ++ images.map fun image => ⟨w.now sub.regID, .image image.id⟩ }
      else .error .unfinished := by
  induction images generalizing cc with
  | nil =>
    rw [if_pos (by rw [List.length_nil, Nat.add_zero]; exact hcapacity)]
    simp [releaseImages]
  | cons image images ih =>
    rw [releaseImages]
    simp only [linger]
    have hqueue : (if hasHandler then { cc with imageCalls := cc.imageCalls ++ [.unavailable sub.regID (some image)] }
        else cc).lingeringResources = cc.lingeringResources := by cases hasHandler <;> rfl
    rw [hqueue]
    by_cases hroom : cc.lingeringResources.length < lingerCapacity
    · rw [if_pos hroom, ok_bind, ih (by rw [List.length_append]; exact hroom)]
      simp only [List.length_append, List.length_cons, List.length_nil, Nat.add_assoc, Nat.add_comm 1, Nat.zero_add]
      cases hasHandler <;> simp
    · rw [if_neg hroom, if_neg (by rw [List.length_cons]; omega)]
      rfl

section

variable {front back : List SubscriptionState} {sub : SubscriptionState} {ref : Nat} {subscription : Subscription}
  {calls : List ImageCall}

/-- The conductor after the close of a subscription. -/
def afterCloseSubscription (w : World) (cc : ClientConductor) (i ref : Nat) (subscription : Subscription)
    (calls : List ImageCall) : ClientConductor :=
  { cc with
    subscriptions := cc.subscriptions.set ref { subscription with isClosed := true, images := [] }
    commands := cc.commands ++ [.removeSubscription subscription.registrationID]
    imageCalls := calls
    lingeringResources := cc.lingeringResources ++
      subscription.images.map fun image => ⟨w.now subscription.registrationID, .image image.id⟩
    subs := Slice.swapRemove cc.subs i }

/-- Closing an open subscription. Its images go to the channel as far as there is room. -/
theorem closeSubscription_eq (hactive : cc.driverActive = true)
    (htakes : w.takes (.removeSubscription sub.regID) = true) (hnodup : (cc.subs.map (·.regID)).Nodup)
    (hcapacity : cc.lingeringResources.length ≤ lingerCapacity) (hsplit : cc.subs = front ++ sub :: back)
    (hobject : cc.subscriptions[ref]? = some subscription) (hopen : subscription.isClosed = false)
    (hid : subscription.registrationID = sub.regID) :
    ∃ handler : Bool, cc.closeSubscription w ref =
      if cc.lingeringResources.length + subscription.images.length ≤ lingerCapacity then
        .ok (none, afterCloseSubscription w cc front.length ref subscription (cc.imageCalls ++
          if handler then subscription.images.map fun image => .unavailable sub.regID (some image) else []))
      else .error .unfinished := by
  obtain ⟨hfront, hback⟩ := others_of_nodup (hsplit ▸ hnodup)
  rw [← hid] at hfront hback htakes
  have hlt := (List.getElem?_eq_some_iff.mp hobject).1
  have hempty : (cc.markSubscriptionClosed ref subscription).emptyImages ref = (subscription.images, { cc with
      subscriptions := cc.subscriptions.set ref { subscription with isClosed := true, images := [] } }) := by
    simp only [emptyImages, markSubscriptionClosed, List.getElem?_set_self hlt, List.set_set]
  have hstatus : getDriverStatus { cc with
      subscriptions := cc.subscriptions.set ref { subscription with isClosed := true, images := [] } } = none :=
    if_pos hactive
  simp only [closeSubscription, hobject, hopen, Bool.false_eq_true, ↓reduceIte, hempty, releaseSubscription, hstatus]
  rw [hsplit, releaseEach_one hfront (decide_eq_true hid.symm) hback]
  simp only [releaseSubscriptionState, writeCommandToDriver, ← hid, htakes, ↓reduceIte]
  generalize hasUnavailableImageHandler _ sub = handler
  rw [releaseImages_eq]
  · refine ⟨handler, ?_⟩
    simp only [afterCloseSubscription, hsplit, hid]
    split <;> rfl
  · exact hcapacity

/-- The subscription of a registration. -/
theorem SubsSound.handedOut (h : SubsSound cc) (hsub : sub ∈ cc.subs) (href : sub.subscription = some ref) :
    ∃ subscription, cc.subscriptions[ref]? = some subscription ∧ subscription.isClosed = false ∧
      subscription.registrationID = sub.regID := h.kept.object hsub href

theorem SubsSound.distinct (h : SubsSound cc) : (cc.subs.map (·.regID)).Nodup := by
  have hnodup := h.kept.distinct
  rwa [subEntries, List.map_map] at hnodup

/-- What the close of subscriptions changes, and what it does not. -/
structure ClosesSubs (a b : ClientConductor) : Prop where
  active : b.driverActive = a.driverActive
  pubs : b.pubs = a.pubs
  publications : b.publications = a.publications
  counters : b.counters = a.counters
  counterObjects : b.counterObjects = a.counterObjects
  registrationIDs : b.subscriptions.map (·.registrationID) = a.subscriptions.map (·.registrationID)
  nextID : b.nextID = a.nextID
  resources : b.resources.Perm a.resources
  publicationsSent : ∀ id, b.sent (.removePublication id) = a.sent (.removePublication id)
  countersSent : ∀ id, b.sent (.removeCounter id) = a.sent (.removeCounter id)

theorem afterCloseSubscription_closes (hobject : cc.subscriptions[ref]? = some subscription) (i : Nat)
    (calls : List ImageCall) : ClosesSubs cc (afterCloseSubscription w cc i ref subscription calls) := by
  refine ⟨rfl, rfl, rfl, rfl, rfl, map_set_of_eq hobject rfl, rfl, ?_, fun id => sent_other rfl nofun, fun id => sent_other rfl nofun⟩
  have himages := flatMap_set_perm (fun s : Subscription => s.images.map fun image => Resource.image image.id) hobject
    { subscription with isClosed := true, images := [] }
  have hlinger : (afterCloseSubscription w cc i ref subscription calls).lingering =
      cc.lingering ++ subscription.images.map fun image => .image image.id := by
    rw [lingering, afterCloseSubscription, List.map_append, List.map_map]
    rfl
  have hbuffers : (afterCloseSubscription w cc i ref subscription calls).mappedBuffers = cc.mappedBuffers := rfl
  refine List.perm_iff_count.mpr fun resource => ?_
  have hcount := himages.count_eq resource
  rw [List.count_append, List.count_append] at hcount
  rw [count_resources, count_resources, hlinger, hbuffers, List.count_append, heldImages, heldImages]
  simp only [List.map_nil, List.count_nil] at hcount
  simp only [afterCloseSubscription]
  omega

/-- The same of a subscription. -/
theorem SubsSound.closed (h : SubsSound cc) (hsplit : cc.subs = front ++ sub :: back)
    (href : sub.subscription = some ref) (hid : subscription.registrationID = sub.regID) :
    SubsSound (afterCloseSubscription w cc front.length ref subscription calls) := by
  have hperm := (Slice.cons_swapRemove_perm (Slice.getElem?_middle front back sub)).map fun s => (s.regID, s.subscription)
  refine ⟨?_, ?_⟩
  · have hobjects : (afterCloseSubscription w cc front.length ref subscription calls).subscriptionObjects =
        cc.subscriptionObjects.set ref (sub.regID, true) := by
      rw [subscriptionObjects, afterCloseSubscription, List.map_set, hid]
      rfl
    rw [hobjects]
    refine h.kept.close ?_ (sent_self ?_) fun id hne => sent_other rfl fun heq => hne ?_
    · rw [subEntries, subEntries, afterCloseSubscription, hsplit]
      simpa only [List.map_cons, href] using hperm
    · exact congrArg (fun id => cc.commands ++ [.removeSubscription id]) hid
    · exact (Command.removeSubscription.inj heq).symm.trans hid
  · intro s hs hclosed
    rcases List.mem_or_eq_of_mem_set hs with hs | rfl
    · exact h.emptied s hs hclosed
    · rfl

end

/-! ## Closing a counter -/

section

variable {ref : Nat} {counter : Counter} {state : CounterState}

/-- The entries of the map of counters. -/
def counterList (cc : ClientConductor) : List (Int × CounterState) := cc.counters.getD []

theorem mem_of_counter? {id : Int} (h : cc.counter? id = some state) : (id, state) ∈ cc.counterList := by
  obtain ⟨front, back, heq, _⟩ := List.lookup_eq_some_iff.mp h
  rw [counterList, heq]
  exact List.mem_append_right _ List.mem_cons_self

theorem counter?_of_mem (hnodup : (cc.counterList.map Prod.fst).Nodup) {id : Int} (h : (id, state) ∈ cc.counterList) :
    cc.counter? id = some state := by
  obtain ⟨front, back, heq⟩ := List.append_of_mem h
  refine List.lookup_eq_some_iff.mpr ⟨front, back, heq, fun e he => ?_⟩
  rw [heq] at hnodup
  have hne := of_decide_eq_false ((others_of_nodup hnodup).1 e he)
  simpa using Ne.symm hne

theorem CountersSound.distinct (h : CountersSound cc) : (cc.counterList.map Prod.fst).Nodup := by
  have hnodup := h.kept.distinct
  rwa [counterEntries, List.map_map] at hnodup

/-- The counter of a registration. -/
theorem CountersSound.handedOut (h : CountersSound cc) {id : Int} (hstate : (id, state) ∈ cc.counterList)
    (href : state.counter = some ref) :
    ∃ counter, cc.counterObjects[ref]? = some counter ∧ counter.isClosed = false ∧ counter.registrationId = id :=
  h.kept.object hstate href

/-- The conductor after the close of a counter. -/
def afterCloseCounter (cc : ClientConductor) (ref : Nat) (counter : Counter) : ClientConductor :=
  { cc.deleteCounter counter.registrationId with
    counterObjects := cc.counterObjects.set ref { counter with isClosed := true }
    commands := cc.commands ++ [.removeCounter counter.registrationId] }

/-- Closing an open counter. -/
theorem closeCounter_eq (hactive : cc.driverActive = true)
    (htakes : w.takes (.removeCounter counter.registrationId) = true)
    (hobject : cc.counterObjects[ref]? = some counter) (hopen : counter.isClosed = false)
    (hentry : cc.counter? counter.registrationId = some state) :
    cc.closeCounter w ref = .ok (none, cc.afterCloseCounter ref counter) := by
  have hstatus : getDriverStatus { cc with
      counterObjects := cc.counterObjects.set ref { counter with isClosed := true } } = none := if_pos hactive
  have hfound : counter? { cc with
      counterObjects := cc.counterObjects.set ref { counter with isClosed := true } } counter.registrationId =
        some state := hentry
  simp only [closeCounter, hobject, hopen, Bool.false_eq_true, ↓reduceIte, releaseCounter, hstatus, hfound,
    writeCommandToDriver, htakes]
  rfl

/-- What the close of counters does not change. -/
structure ClosesCounters (a b : ClientConductor) : Prop where
  active : b.driverActive = a.driverActive
  publications : b.publications = a.publications
  subscriptions : b.subscriptions = a.subscriptions
  lingeringResources : b.lingeringResources = a.lingeringResources
  registrationIds : b.counterObjects.map (·.registrationId) = a.counterObjects.map (·.registrationId)
  publicationsSent : ∀ id, b.sent (.removePublication id) = a.sent (.removePublication id)
  subscriptionsSent : ∀ id, b.sent (.removeSubscription id) = a.sent (.removeSubscription id)

theorem afterCloseCounter_closes (hobject : cc.counterObjects[ref]? = some counter) :
    ClosesCounters cc (cc.afterCloseCounter ref counter) := by
  refine ⟨rfl, rfl, rfl, rfl, map_set_of_eq hobject rfl, fun _ => sent_other rfl nofun, fun _ => sent_other rfl nofun⟩

/-- A counter that is deleted leaves the others. -/
theorem counterList_delete (cc : ClientConductor) (id : Int) :
    (cc.deleteCounter id).counterList = cc.counterList.filter (·.1 ≠ id) := by
  simp only [counterList, deleteCounter]
  cases cc.counters <;> rfl

/-- The same of a counter. -/
theorem CountersSound.closed (h : CountersSound cc) {id : Int} (hstate : (id, state) ∈ cc.counterList)
    (href : state.counter = some ref) (hid : counter.registrationId = id) :
    CountersSound (cc.afterCloseCounter ref counter) := by
  refine ⟨?_⟩
  have hobjects : (cc.afterCloseCounter ref counter).counterObjectsOf = cc.counterObjectsOf.set ref (id, true) := by
    rw [counterObjectsOf, afterCloseCounter, List.map_set, hid]
    rfl
  rw [hobjects]
  refine h.kept.close ?_ (sent_self ?_) fun i hne => sent_other rfl fun heq => hne ?_
  · obtain ⟨front, back, heq⟩ := List.append_of_mem hstate
    obtain ⟨hfront, hback⟩ := others_of_nodup (heq ▸ h.distinct)
    have hrest : (cc.afterCloseCounter ref counter).counterEntries =
        (front ++ back).map fun entry => (entry.1, entry.2.counter) := by
      have hlist : (cc.afterCloseCounter ref counter).counterList = front ++ back := by
        show (cc.deleteCounter counter.registrationId).counterList = _
        rw [counterList_delete, heq, hid, List.filter_append, List.filter_cons_of_neg (by simp),
          List.filter_eq_self.mpr, List.filter_eq_self.mpr]
        · intro e he
          simpa using of_decide_eq_false (hback e he)
        · intro e he
          simpa using of_decide_eq_false (hfront e he)
      exact congrArg _ hlist
    have hentries : cc.counterEntries = (front ++ (id, state) :: back).map fun entry => (entry.1, entry.2.counter) :=
      congrArg _ heq
    rw [hrest, hentries, List.map_append, List.map_append, List.map_cons, href]
    exact List.perm_middle.symm
  · exact congrArg (fun id => cc.commands ++ [.removeCounter id]) hid
  · exact (Command.removeCounter.inj heq).symm.trans hid

end

end AeronGo.Conductor.ClientConductor
