import AeronGo.Laws.Conductor.Close
import AeronGo.Laws.Conductor.Operations

/-!
# Closing everything

`closeAllResources` ranges over `pubs` and `subs` while each `Close` removes its entry from the same slice, and
the entry that takes its place is not read (`Machine.Slice.sweep`). So some are left open unless the entries that
are moved forward have nothing handed out. What was mapped for a publication that nobody has found is not released
either, and a full channel of lingering resources stops the loop for good.
-/

namespace AeronGo.Conductor.ClientConductor

open Machine Machine.Registry Atomic Driver

variable {w : World} {cc cc' : ClientConductor}

/-! ## The loop over publications -/

/-- There are more resources than the channel holds. -/
def Overfull (cc : ClientConductor) : Prop := lingerCapacity < cc.resources.length

theorem length_resources (cc : ClientConductor) :
    cc.resources.length = cc.mappedBuffers.length + cc.heldImages.length + cc.lingeringResources.length := by
  rw [resources, List.length_append, List.length_append, lingering, List.length_map, Nat.add_assoc]

/-- Whether the channel overflows is a matter of how much is mapped. -/
theorem Overfull.of_perm (hperm : cc'.resources.Perm cc.resources) (h : Overfull cc') : Overfull cc := by
  unfold Overfull at h ⊢
  rwa [hperm.length_eq] at h

section Handed

variable {α : Type} {f : α → Option Nat} {xs front back : List α} {x : α} {i ref : Nat}

/-- An entry that has nothing handed out. -/
theorem handed_none (h : ∀ x, xs[i]? = some x → (f x).isSome = false) : xs[i]?.bind f = none :=
  Option.bind_eq_none_iff.mpr fun x hx => Option.isNone_iff_eq_none.mp (Option.isSome_eq_false_iff.mp (h x hx))

theorem handed_some (hsplit : xs = front ++ x :: back) (hf : f x = some ref) : xs[front.length]?.bind f = some ref := by
  rw [hsplit, Slice.getElem?_middle]
  exact hf

end Handed

/-- What a loop keeps beside its own registry. -/
structure Loop (cc : ClientConductor) : Prop where
  active : cc.driverActive = true
  resources : ResourcesSound cc
  listed : Listed cc

/-- What the loop over the publications keeps. -/
structure PubsLoop (cc : ClientConductor) : Prop extends Loop cc where
  pubs : PubsSound cc

theorem ClosesPubs.refl (a : ClientConductor) : ClosesPubs a a :=
  ⟨rfl, rfl, rfl, rfl, rfl, rfl, rfl, .refl _, fun _ => rfl, fun _ => rfl⟩

theorem ClosesPubs.trans (a b c : ClientConductor) (hab : ClosesPubs a b) (hbc : ClosesPubs b c) : ClosesPubs a c :=
  ⟨hbc.active.trans hab.active, hbc.subs.trans hab.subs, hbc.subscriptions.trans hab.subscriptions,
    hbc.counters.trans hab.counters, hbc.counterObjects.trans hab.counterObjects, hbc.regIDs.trans hab.regIDs,
    hbc.nextID.trans hab.nextID, hbc.resources.trans hab.resources,
    fun id => (hbc.subscriptionsSent id).trans (hab.subscriptionsSent id),
    fun id => (hbc.countersSent id).trans (hab.countersSent id)⟩

/-- The loop over the publications closes one at a time and moves up by one, as `Slice.Sweeps` says. -/
theorem sweeps_pubs (htakes : ∀ command, w.takes command = true) :
    Slice.Sweeps (·.pubs) (·.publication.isSome) (closePublicationAt w) PubsLoop Overfull ClosesPubs where
  refl := ClosesPubs.refl
  trans := ClosesPubs.trans
  back := fun _ _ hab hover => hover.of_perm hab.resources
  pass := by
    intro cc i hnone
    simp only [closePublicationAt, handed_none hnone]
  hit := by
    intro cc front pub back h hsplit hsome
    obtain ⟨ref, href⟩ := Option.isSome_iff_exists.mp hsome
    have hpub : pub ∈ cc.pubs := by
      rw [hsplit]
      simp
    obtain ⟨publication, buffers, hobject, hopen, hid, hbuffers, honce⟩ := h.pubs.handedOut h.listed hpub href
    simp only [closePublicationAt, handed_some hsplit href]
    have hclose := closePublication_eq h.active (htakes _) h.pubs.distinct hsplit hobject hopen hid hbuffers honce
    have hcloses := afterClosePublication_closes (w := w) hsplit hobject hbuffers
    rw [hclose]
    split
    next hroom =>
      rw [if_pos hroom] at hclose
      exact .inl ⟨_, rfl, ⟨⟨h.active, h.resources.of_perm hcloses.resources rfl, h.listed.closePublication hclose⟩,
        h.pubs.closed hsplit href hid⟩, hcloses, rfl⟩
    next hroom =>
      refine .inr ⟨⟨_, rfl⟩, ?_⟩
      have hmapped : 0 < cc.mappedBuffers.length := by
        refine List.length_pos_of_mem (a := .buffers buffers.id) (List.mem_flatMap.mpr ⟨pub, hpub, ?_⟩)
        rw [hbuffers]
        exact List.mem_singleton.mpr rfl
      unfold Overfull
      rw [length_resources]
      omega

/-! ## The loop over subscriptions -/

/-- What the loop over the subscriptions keeps. -/
structure SubsLoop (cc : ClientConductor) : Prop extends Loop cc where
  subs : SubsSound cc

theorem ClosesSubs.refl (a : ClientConductor) : ClosesSubs a a :=
  ⟨rfl, rfl, rfl, rfl, rfl, rfl, rfl, .refl _, fun _ => rfl, fun _ => rfl⟩

theorem ClosesSubs.trans (a b c : ClientConductor) (hab : ClosesSubs a b) (hbc : ClosesSubs b c) : ClosesSubs a c :=
  ⟨hbc.active.trans hab.active, hbc.pubs.trans hab.pubs, hbc.publications.trans hab.publications,
    hbc.counters.trans hab.counters, hbc.counterObjects.trans hab.counterObjects,
    hbc.registrationIDs.trans hab.registrationIDs, hbc.nextID.trans hab.nextID, hbc.resources.trans hab.resources,
    fun id => (hbc.publicationsSent id).trans (hab.publicationsSent id),
    fun id => (hbc.countersSent id).trans (hab.countersSent id)⟩

/-- The images of one subscription are among all. -/
theorem length_images_le {ref : Nat} {subscription : Subscription} (hobject : cc.subscriptions[ref]? = some subscription) :
    subscription.images.length ≤ cc.heldImages.length := by
  have hperm := flatMap_set_perm (fun s : Subscription => s.images.map fun image => Resource.image image.id) hobject
    { subscription with images := [] }
  have hlength := hperm.length_eq
  simp only [List.length_append, List.map_nil, List.length_nil, Nat.zero_add, List.length_map] at hlength
  rw [heldImages, hlength]
  exact Nat.le_add_right _ _

/-- The loop over the subscriptions does the same. -/
theorem sweeps_subs (htakes : ∀ command, w.takes command = true) :
    Slice.Sweeps (·.subs) (·.subscription.isSome) (closeSubscriptionAt w) SubsLoop Overfull ClosesSubs where
  refl := ClosesSubs.refl
  trans := ClosesSubs.trans
  back := fun _ _ hab hover => hover.of_perm hab.resources
  pass := by
    intro cc i hnone
    simp only [closeSubscriptionAt, handed_none hnone]
  hit := by
    intro cc front sub back h hsplit hsome
    obtain ⟨ref, href⟩ := Option.isSome_iff_exists.mp hsome
    have hsub : sub ∈ cc.subs := by
      rw [hsplit]
      simp
    obtain ⟨subscription, hobject, hopen, hid⟩ := h.subs.handedOut hsub href
    obtain ⟨handler, hclose⟩ := closeSubscription_eq h.active (htakes _) h.subs.distinct h.listed.capacity hsplit
      hobject hopen hid
    have hcloses := afterCloseSubscription_closes (w := w) hobject front.length (cc.imageCalls ++
      if handler then subscription.images.map fun image => .unavailable sub.regID (some image) else [])
    simp only [closeSubscriptionAt, handed_some hsplit href, hclose]
    split
    next hroom =>
      rw [if_pos hroom] at hclose
      exact .inl ⟨_, rfl, ⟨⟨h.active, h.resources.of_perm hcloses.resources rfl, h.listed.closeSubscription hclose⟩,
        h.subs.closed hsplit href hid⟩, hcloses, rfl⟩
    next hroom =>
      refine .inr ⟨⟨_, rfl⟩, ?_⟩
      have hheld := length_images_le hobject
      unfold Overfull
      rw [length_resources]
      omega

/-! ## The loop over counters -/

theorem ClosesCounters.refl (a : ClientConductor) : ClosesCounters a a :=
  ⟨rfl, rfl, rfl, rfl, rfl, fun _ => rfl, fun _ => rfl⟩

theorem ClosesCounters.trans {a b c : ClientConductor} (hab : ClosesCounters a b) (hbc : ClosesCounters b c) :
    ClosesCounters a c :=
  ⟨hbc.active.trans hab.active, hbc.publications.trans hab.publications, hbc.subscriptions.trans hab.subscriptions,
    hbc.lingeringResources.trans hab.lingeringResources, hbc.registrationIds.trans hab.registrationIds,
    fun id => (hbc.publicationsSent id).trans (hab.publicationsSent id),
    fun id => (hbc.subscriptionsSent id).trans (hab.subscriptionsSent id)⟩

/-- One round: the counter of the key, if any, is closed and its entry gone; entries only go. -/
theorem closeCounterOf_ok (htakes : ∀ command, w.takes command = true) (hactive : cc.driverActive = true)
    (h : CountersSound cc) (id : Int) : ∃ b, cc.closeCounterOf w id = .ok b ∧ CountersSound b ∧ ClosesCounters cc b ∧
      (∀ e ∈ b.counterList, e ∈ cc.counterList) ∧ ∀ e ∈ b.counterList, e.1 = id → e.2.counter = none := by
  cases hfound : (cc.counter? id).bind (·.counter) with
  | none =>
    refine ⟨cc, by simp only [closeCounterOf, hfound], h, .refl cc, fun _ he => he, ?_⟩
    rintro ⟨i, state⟩ he rfl
    rw [counter?_of_mem h.distinct he] at hfound
    exact hfound
  | some ref =>
    obtain ⟨state, hstate, href⟩ := Option.bind_eq_some_iff.mp hfound
    have hmem := mem_of_counter? hstate
    obtain ⟨counter, hobject, hopen, rfl⟩ := h.handedOut hmem href
    have hlist : (cc.afterCloseCounter ref counter).counterList =
        cc.counterList.filter (·.1 ≠ counter.registrationId) := counterList_delete cc counter.registrationId
    refine ⟨cc.afterCloseCounter ref counter, ?_, h.closed hmem href rfl, afterCloseCounter_closes hobject, ?_, ?_⟩
    · simp only [closeCounterOf, hfound]
      rw [closeCounter_eq hactive (htakes _) hobject hopen hstate]
      rfl
    · intro e he
      rw [hlist] at he
      exact (List.mem_filter.mp he).1
    · intro e he heq
      rw [hlist] at he
      exact absurd heq (of_decide_eq_true (List.mem_filter.mp he).2)

/-- The loop over the counters goes over their keys and closes all of them. -/
theorem closeCounters_ok (htakes : ∀ command, w.takes command = true) (keys : List Int)
    (hactive : cc.driverActive = true) (h : CountersSound cc) :
    ∃ b, keys.foldlM (closeCounterOf w) cc = .ok b ∧ CountersSound b ∧ ClosesCounters cc b ∧
      (∀ e ∈ b.counterList, e ∈ cc.counterList) ∧ ∀ e ∈ b.counterList, e.1 ∈ keys → e.2.counter = none := by
  induction keys generalizing cc with
  | nil => exact ⟨cc, rfl, h, .refl cc, fun _ => id, fun _ _ => nofun⟩
  | cons key keys ih =>
    obtain ⟨b, hb, hsound, hcloses, hsub, hkey⟩ := closeCounterOf_ok htakes hactive h key
    obtain ⟨c, hc, hsound', hcloses', hsub', hkeys⟩ := ih (hcloses.active.trans hactive) hsound
    refine ⟨c, ?_, hsound', hcloses.trans hcloses', fun e he => hsub e (hsub' e he), fun e he hmem => ?_⟩
    · rw [List.foldlM_cons, hb]
      exact hc
    · rcases List.mem_cons.mp hmem with heq | hmem
      · exact hkey e (hsub' e he) heq
      · exact hkeys e he hmem

/-! ## All of them -/

/-- The conductor after the loop over publications, after the one over subscriptions, and after the one over
counters. -/
structure Ended (cc t u b : ClientConductor) : Prop where
  pubs : PubsSound t
  closesPubs : ClosesPubs { cc with running := false } t
  sweptPubs : t.pubs = Slice.sweep (·.publication.isSome) [] cc.pubs
  subs : SubsSound u
  room : u.lingeringResources.length ≤ lingerCapacity
  closesSubs : ClosesSubs { t with pubs := [] } u
  sweptSubs : u.subs = Slice.sweep (·.subscription.isSome) [] cc.subs
  counters : CountersSound b
  closesCounters : ClosesCounters { u with subs := [] } b
  sweptCounters : ∀ e ∈ b.counterEntries, e.2 = none

/-- The first loop of `Close`. -/
def closePubs (w : World) (cc : ClientConductor) : Except Stop ClientConductor :=
  (List.range cc.pubs.length).foldlM (closePublicationAt w) cc

/-- The second loop of `Close`. -/
def closeSubs (w : World) (cc : ClientConductor) : Except Stop ClientConductor :=
  (List.range cc.subs.length).foldlM (closeSubscriptionAt w) cc

/-- The third loop of `Close`. -/
def closeCounters (w : World) (cc : ClientConductor) : Except Stop ClientConductor :=
  ((cc.counters.getD []).map Prod.fst).foldlM (closeCounterOf w) cc

theorem closeAllResources_eq (hrunning : cc.running = true) : closeAllResources w cc = do
    let t ← closePubs w { cc with running := false }
    let u ← closeSubs w { t with pubs := [] }
    let b ← closeCounters w { u with subs := [] }
    return { b with counters := none } := by
  rw [closeAllResources, if_pos hrunning]
  rfl

theorem closeAllResources_ended (h : Sound cc) (htakes : ∀ command, w.takes command = true) :
    (∃ t u b, closeAllResources w cc = .ok { b with counters := none } ∧ Ended cc t u b) ∨
      (∃ e, closeAllResources w cc = .error e) ∧ Overfull cc := by
  have hstart : PubsLoop { cc with running := false } :=
    ⟨⟨h.active, { h.resources with }, h.listed.untouched rfl⟩, { h.pubs with }⟩
  rw [closeAllResources_eq h.running]
  rcases (sweeps_pubs htakes).loop hstart with ⟨t, ht, hloop, hpubs, hswept⟩ | ⟨⟨e, he⟩, hover⟩
  · have ht : closePubs w { cc with running := false } = .ok t := ht
    have hcount : ∀ resource, (ClientConductor.resources { t with pubs := [] }).count resource ≤
        t.resources.count resource := by
      intro resource
      rw [count_resources, count_resources]
      simp only [mappedBuffers, List.flatMap_nil, List.count_nil, Nat.zero_add, heldImages, lingering]
      omega
    have hsubs : SubsLoop { t with pubs := [] } :=
      ⟨⟨hloop.active, hloop.resources.of_count (fun resource _ => hcount resource) rfl,
        hloop.listed.removePubs List.nil_subperm⟩, h.subs.congr hpubs.subs hpubs.subscriptions hpubs.subscriptionsSent⟩
    rw [ht, ok_bind]
    rcases (sweeps_subs htakes).loop hsubs with ⟨u, hu, hloop', hcloses, hswept'⟩ | ⟨⟨e, he⟩, hover⟩
    · have hu : closeSubs w { t with pubs := [] } = .ok u := hu
      have hcounters : CountersSound { u with subs := [] } :=
        h.counters.congr (hcloses.counters.trans hpubs.counters) (hcloses.counterObjects.trans hpubs.counterObjects)
          fun id => (hcloses.countersSent id).trans (hpubs.countersSent id)
      obtain ⟨b, hb, hsound, hclosesCounters, hsub, hnone⟩ := closeCounters_ok htakes
        ((u.counters.getD []).map Prod.fst) (show ClientConductor.driverActive { u with subs := [] } = true from
          hloop'.active) hcounters
      have hb : closeCounters w { u with subs := [] } = .ok b := hb
      rw [hu, ok_bind, hb]
      refine .inl ⟨t, u, b, rfl, hloop.pubs, hpubs, hswept, hloop'.subs, hloop'.listed.capacity, hcloses, ?_, hsound,
        hclosesCounters, ?_⟩
      · rw [hswept']
        exact congrArg _ hpubs.subs
      · intro e he
        obtain ⟨entry, hentry, rfl⟩ := List.mem_map.mp he
        exact hnone entry hentry (List.mem_map_of_mem (hsub entry hentry))
    · have he : closeSubs w { t with pubs := [] } = .error e := he
      rw [he]
      refine .inr ⟨⟨e, rfl⟩, ?_⟩
      have hlength : (ClientConductor.resources { t with pubs := [] }).length ≤ t.resources.length := by
        rw [length_resources, length_resources]
        simp only [mappedBuffers, List.flatMap_nil, List.length_nil, Nat.zero_add, heldImages]
        omega
      exact Nat.lt_of_lt_of_le hover (Nat.le_trans hlength (Nat.le_of_eq hpubs.resources.length_eq))
  · have he : closePubs w { cc with running := false } = .error e := he
    rw [he]
    exact .inr ⟨⟨e, rfl⟩, hover⟩

/-! ## What is released -/

/-- Every object is closed and removed from the driver once, and every mapped log and every image lingers once. -/
structure Released (a b : ClientConductor) : Prop where
  publications : ∀ (ref : Nat) publication, a.publications[ref]? = some publication →
    ∃ publication', b.publications[ref]? = some publication' ∧ publication'.isClosed = true ∧
      b.sent (.removePublication publication.regID) = 1
  subscriptions : ∀ (ref : Nat) subscription, a.subscriptions[ref]? = some subscription →
    ∃ subscription', b.subscriptions[ref]? = some subscription' ∧ subscription'.isClosed = true ∧
      b.sent (.removeSubscription subscription.registrationID) = 1
  counters : ∀ (ref : Nat) counter, a.counterObjects[ref]? = some counter →
    ∃ counter', b.counterObjects[ref]? = some counter' ∧ counter'.isClosed = true ∧
      b.sent (.removeCounter counter.registrationId) = 1
  buffers : ∀ pub ∈ a.pubs, ∀ buffers, pub.buffers = some buffers → b.lingering.count (.buffers buffers.id) = 1
  images : ∀ subscription ∈ a.subscriptions, ∀ image ∈ subscription.images, b.lingering.count (.image image.id) = 1

/-- Among the last entries of `pubs`, as many as there are publications handed out but one, none is handed out; the
same of `subs`; every mapped log belongs to a publication that was found; and there is room for everything. -/
structure Releasable (cc : ClientConductor) : Prop where
  pubs : Slice.Orderly (·.publication.isSome) cc.pubs
  subs : Slice.Orderly (·.subscription.isSome) cc.subs
  found : ∀ pub ∈ cc.pubs, pub.buffers.isSome → pub.publication.isSome
  room : cc.resources.length ≤ lingerCapacity

/-- The objects before and after, which have the same ids. -/
theorem allClosed_iff {α : Type} {key : α → Int} {isClosed : α → Bool} {xs ys : List α}
    (hids : ys.map key = xs.map key) (told : Int → Nat) :
    (∀ (ref : Nat) x, xs[ref]? = some x → ∃ y, ys[ref]? = some y ∧ isClosed y = true ∧ told (key x) = 1) ↔
      ∀ (id : Int) (ref : Nat) (closed : Bool), (ys.map fun y => (key y, isClosed y))[ref]? = some (id, closed) →
        closed = true ∧ told id = 1 := by
  have hplace : ∀ (ref : Nat), (ys[ref]?).map key = (xs[ref]?).map key := by
    intro ref
    rw [← List.getElem?_map, ← List.getElem?_map, hids]
  constructor
  · intro hall id ref closed hobject
    rw [List.getElem?_map] at hobject
    obtain ⟨y, hy, heq⟩ := Option.map_eq_some_iff.mp hobject
    obtain ⟨rfl, rfl⟩ := Prod.mk.inj heq
    have hx := hplace ref
    rw [hy, Option.map_some] at hx
    obtain ⟨x, hx, hkey⟩ := Option.map_eq_some_iff.mp hx.symm
    obtain ⟨y', hy', hclosed, htold⟩ := hall ref x hx
    cases hy.symm.trans hy'
    exact ⟨hclosed, hkey ▸ htold⟩
  · intro hall ref x hx
    have hy := hplace ref
    rw [hx, Option.map_some] at hy
    obtain ⟨y, hy, hkey⟩ := Option.map_eq_some_iff.mp hy
    obtain ⟨hclosed, htold⟩ := hall (key y) ref (isClosed y) (by rw [List.getElem?_map, hy, Option.map_some])
    exact ⟨y, hy, hclosed, hkey ▸ htold⟩

namespace Ended

variable {t u b : ClientConductor}

/-- All publications are closed exactly if the first loop left no registration with one. -/
theorem publications_iff (h : Ended cc t u b) :
    (∀ (ref : Nat) publication, cc.publications[ref]? = some publication →
      ∃ publication', b.publications[ref]? = some publication' ∧ publication'.isClosed = true ∧
        b.sent (.removePublication publication.regID) = 1) ↔ ∀ pub ∈ t.pubs, pub.publication = none := by
  have hobjects : b.publications = t.publications := h.closesCounters.publications.trans h.closesSubs.publications
  have hsent : ∀ id, b.sent (.removePublication id) = t.sent (.removePublication id) := fun id =>
    (h.closesCounters.publicationsSent id).trans (h.closesSubs.publicationsSent id)
  simp only [hobjects, hsent]
  rw [allClosed_iff h.closesPubs.regIDs fun id => t.sent (.removePublication id)]
  refine h.pubs.kept.all_closed_iff.trans ?_
  rw [pubEntries, List.forall_mem_map]

/-- All subscriptions are closed exactly if the second loop left no registration with one. -/
theorem subscriptions_iff (h : Ended cc t u b) :
    (∀ (ref : Nat) subscription, cc.subscriptions[ref]? = some subscription →
      ∃ subscription', b.subscriptions[ref]? = some subscription' ∧ subscription'.isClosed = true ∧
        b.sent (.removeSubscription subscription.registrationID) = 1) ↔ ∀ sub ∈ u.subs, sub.subscription = none := by
  have hobjects : b.subscriptions = u.subscriptions := h.closesCounters.subscriptions
  have hsent : ∀ id, b.sent (.removeSubscription id) = u.sent (.removeSubscription id) :=
    h.closesCounters.subscriptionsSent
  have hids : u.subscriptions.map (·.registrationID) = cc.subscriptions.map (·.registrationID) :=
    h.closesSubs.registrationIDs.trans (congrArg _ h.closesPubs.subscriptions)
  simp only [hobjects, hsent]
  rw [allClosed_iff hids fun id => u.sent (.removeSubscription id)]
  refine h.subs.kept.all_closed_iff.trans ?_
  rw [subEntries, List.forall_mem_map]

/-- The counters are closed in any case. -/
theorem counters_closed (h : Ended cc t u b) (ref : Nat) (counter : Counter)
    (hobject : cc.counterObjects[ref]? = some counter) :
    ∃ counter', b.counterObjects[ref]? = some counter' ∧ counter'.isClosed = true ∧
      b.sent (.removeCounter counter.registrationId) = 1 := by
  have hids : b.counterObjects.map (·.registrationId) = cc.counterObjects.map (·.registrationId) :=
    h.closesCounters.registrationIds.trans
      (congrArg _ (h.closesSubs.counterObjects.trans h.closesPubs.counterObjects))
  exact (allClosed_iff hids fun id => b.sent (.removeCounter id)).mpr (h.counters.kept.all_closed_iff.mpr h.sweptCounters) ref counter hobject

/-- Which registrations the first loop passes over depends on their order alone. -/
theorem pubs_orderly (h : Ended cc t u b) :
    (∀ pub ∈ t.pubs, pub.publication = none) ↔ Slice.Orderly (·.publication.isSome) cc.pubs := by
  rw [← Slice.sweep_nil_orderly, ← h.sweptPubs]
  simp only [Option.isSome_eq_false_iff, Option.isNone_iff_eq_none]

theorem subs_orderly (h : Ended cc t u b) :
    (∀ sub ∈ u.subs, sub.subscription = none) ↔ Slice.Orderly (·.subscription.isSome) cc.subs := by
  rw [← Slice.sweep_nil_orderly, ← h.sweptSubs]
  simp only [Option.isSome_eq_false_iff, Option.isNone_iff_eq_none]

/-- A registration with nothing handed out is left by the loop. -/
theorem mem_pubs (h : Ended cc t u b) {pub : PublicationState} (hnone : pub.publication = none) :
    pub ∈ t.pubs ↔ pub ∈ cc.pubs := by
  rw [h.sweptPubs, Slice.mem_sweep (by rw [hnone]; rfl)]
  simp

theorem lingering_eq (h : Ended cc t u b) : b.lingering = u.lingering :=
  congrArg (List.map LingerResource.resource) h.closesCounters.lingeringResources

/-- If nothing is left behind, all resources linger. -/
theorem lingering_perm (h : Ended cc t u b) (hpubs : ∀ pub ∈ t.pubs, pub.publication = none)
    (hsubs : ∀ sub ∈ u.subs, sub.subscription = none) (hfound : ∀ pub ∈ cc.pubs, pub.buffers.isSome → pub.publication.isSome) :
    b.lingering.Perm cc.resources := by
  have hbuffers : t.mappedBuffers = [] := by
    refine List.flatMap_eq_nil_iff.mpr fun pub hpub => ?_
    cases hsome : pub.buffers with
    | none => rfl
    | some buffers =>
      have hfind := hfound pub ((h.mem_pubs (hpubs pub hpub)).mp hpub) (by rw [hsome]; rfl)
      rw [hpubs pub hpub] at hfind
      cases hfind
  have himages : u.heldImages = [] := by
    refine List.flatMap_eq_nil_iff.mpr fun subscription hsubscription => ?_
    obtain ⟨ref, href⟩ := List.mem_iff_getElem?.mp hsubscription
    have hall := h.subs.kept.all_closed_iff.mpr (by rw [subEntries, List.forall_mem_map]; exact hsubs)
    obtain ⟨hclosed, _⟩ := hall subscription.registrationID ref subscription.isClosed (by
      rw [subscriptionObjects, List.getElem?_map, href, Option.map_some])
    rw [h.subs.emptied subscription hsubscription hclosed]
    rfl
  have hnone : u.mappedBuffers = [] := by rw [mappedBuffers, h.closesSubs.pubs]; rfl
  have hu : u.resources = b.lingering := by rw [ClientConductor.resources, hnone, himages, h.lingering_eq]; rfl
  have ht : ClientConductor.resources { t with pubs := [] } = t.resources := by
    rw [ClientConductor.resources, ClientConductor.resources, hbuffers]
    rfl
  rw [← hu]
  refine h.closesSubs.resources.trans ?_
  rw [ht]
  exact h.closesPubs.resources

/-- A log whose publication nobody found is lost. -/
theorem found_of_lingering (h : Ended cc t u b) (hsound : ResourcesSound cc) {pub : PublicationState} (hpub : pub ∈ cc.pubs)
    {buffers : LogBuffers} (hbuffers : pub.buffers = some buffers)
    (hcount : b.lingering.count (.buffers buffers.id) = 1) : pub.publication.isSome = true := by
  cases hnone : pub.publication with
  | some ref => rfl
  | none =>
    have hmapped : 0 < t.mappedBuffers.count (.buffers buffers.id) := by
      refine List.count_pos_iff.mpr (List.mem_flatMap.mpr ⟨pub, (h.mem_pubs hnone).mpr hpub, ?_⟩)
      rw [hbuffers]
      exact List.mem_singleton.mpr rfl
    have hone := hsound.single (.buffers buffers.id) nofun
    have ht := h.closesPubs.resources.count_eq (.buffers buffers.id)
    have hu := h.closesSubs.resources.count_eq (.buffers buffers.id)
    rw [count_resources, show ClientConductor.resources { cc with running := false } = cc.resources from rfl] at ht
    rw [count_resources, count_resources, ← h.lingering_eq, hcount] at hu
    simp only [mappedBuffers, List.flatMap_nil, List.count_nil, heldImages, lingering] at ht hu hmapped
    omega

end Ended

/-- Everything is released exactly if nothing handed out is moved in the slices, every log was asked for, and the
channel has room. -/
theorem close_all_releases_iff {driverTimeoutNs resourceLingerTimeoutNs : Int} {hasErrorHandler : Bool}
    (h : (system driverTimeoutNs resourceLingerTimeoutNs hasErrorHandler).Reachable cc)
    (htakes : ∀ command, w.takes command = true) :
    (∃ cc', closeAllResources w cc = .ok cc' ∧ Released cc cc') ↔ Releasable cc := by
  have hsound := sound_of_reachable h
  rcases closeAllResources_ended hsound htakes with ⟨t, u, b, hclose, hended⟩ | ⟨⟨e, he⟩, hover⟩
  · constructor
    · rintro ⟨cc', hcc, hreleased⟩
      rw [hclose] at hcc
      cases hcc
      have hpubs := hended.publications_iff.mp hreleased.publications
      have hsubs := hended.subscriptions_iff.mp hreleased.subscriptions
      have hfound : ∀ pub ∈ cc.pubs, pub.buffers.isSome → pub.publication.isSome := by
        intro pub hpub hsome
        obtain ⟨buffers, hbuffers⟩ := Option.isSome_iff_exists.mp hsome
        exact hended.found_of_lingering hsound.resources hpub hbuffers (hreleased.buffers pub hpub buffers hbuffers)
      refine ⟨hended.pubs_orderly.mp hpubs, hended.subs_orderly.mp hsubs, hfound, ?_⟩
      rw [← (hended.lingering_perm hpubs hsubs hfound).length_eq, hended.lingering_eq, lingering, List.length_map]
      exact hended.room
    · intro hcc
      have hpubs := hended.pubs_orderly.mpr hcc.pubs
      have hsubs := hended.subs_orderly.mpr hcc.subs
      have hperm := hended.lingering_perm hpubs hsubs hcc.found
      have hone : ∀ resource ∈ cc.resources, resource ≠ .nil → b.lingering.count resource = 1 := by
        intro resource hmem hne
        rw [hperm.count_eq]
        exact Nat.le_antisymm (hsound.resources.single resource hne) (List.count_pos_iff.mpr hmem)
      refine ⟨_, hclose, hended.publications_iff.mpr hpubs, hended.subscriptions_iff.mpr hsubs, hended.counters_closed,
        fun pub hpub buffers hbuffers => hone _ ?_ Resource.noConfusion,
        fun subscription hsubscription image himage => hone _ ?_ Resource.noConfusion⟩
      · refine List.mem_append_left _ (List.mem_flatMap.mpr ⟨pub, hpub, ?_⟩)
        rw [hbuffers]
        exact List.mem_singleton.mpr rfl
      · refine List.mem_append_right _ (List.mem_append_left _ (List.mem_flatMap.mpr ⟨subscription, hsubscription, ?_⟩))
        exact List.mem_map.mpr ⟨image, himage, rfl⟩
  · refine iff_of_false ?_ fun hcc => Nat.not_lt.mpr hcc.room hover
    rintro ⟨cc', hcc, _⟩
    rw [he] at hcc
    cases hcc

/-! ### Conductors with one and with two publications -/

/-- A publication is added, mapped and found. -/
def publishing (regID : Int) : List (World × Operation) :=
  [.addPublication regID "aeron:ipc" 10, .newPublication 4 5 6 "log" regID regID, .findPublication regID].map
    fun operation => (world true, operation)

/-- A publication, a subscription with two images and a counter. -/
def oneOfEach : List (World × Operation) :=
  publishing 1 ++ [.addSubscription 2 "aeron:ipc" 10 true true, .subscriptionReady 2 8, .availableImage 4 2 9,
    .availableImage 5 2 10, .addCounter 3 7 0 0, .availableCounter 3 11, .findCounter 3 none].map
      fun operation => (world true, operation)

theorem close_all_releases_iff_one : ∃ cc, (system 1000 100 true).Reachable cc ∧ cc.publications.length = 1 ∧
    cc.heldImages.length = 2 ∧ cc.counterObjects.length = 1 ∧
    ∃ cc', closeAllResources (world true) cc = .ok cc' ∧ Released cc cc' := by
  obtain ⟨cc, hreach, hcc⟩ := System.exists_reachable (· = ClientConductor.init 1000 100 true)
    (fun cc (a : World × Operation) => cc.operate (accepting a.1) a.2) rfl oneOfEach
    (fun cc => cc.publications.length = 1 ∧ cc.heldImages.length = 2 ∧ cc.counterObjects.length = 1 ∧
      Slice.Orderly (·.publication.isSome) cc.pubs ∧ Slice.Orderly (·.subscription.isSome) cc.subs ∧
      (∀ pub ∈ cc.pubs, pub.buffers.isSome → pub.publication.isSome) ∧ cc.resources.length ≤ lingerCapacity)
    (by decide +kernel)
  obtain ⟨hpublications, himages, hcounters, hpubs, hsubs, hfound, hroom⟩ := of_decide_eq_true hcc
  exact ⟨cc, hreach, hpublications, himages, hcounters,
    (close_all_releases_iff hreach fun _ => rfl).mpr ⟨hpubs, hsubs, hfound, hroom⟩⟩

/-- Of two publications the second is left open, its removal is not sent and its log does not linger. -/
theorem second_publication_left_open : ∃ cc cc', (system 1000 100 true).Reachable cc ∧
    closeAllResources (world true) cc = .ok cc' ∧ cc'.publications.map (·.isClosed) = [true, false] ∧
    cc'.sent (.removePublication 2) = 0 ∧ cc.mappedBuffers = [.buffers 0, .buffers 1] ∧
    cc'.lingering = [.buffers 0] ∧ ¬ Released cc cc' := by
  obtain ⟨cc, hreach, hcc⟩ := System.exists_reachable (· = ClientConductor.init 1000 100 true)
    (fun cc (a : World × Operation) => cc.operate (accepting a.1) a.2) rfl (publishing 1 ++ publishing 2)
    (fun cc => cc.publications[1]?.isSome ∧ (closeAllResources (world true) cc).toOption.any fun cc' =>
      cc'.publications.map (·.isClosed) = [true, false] ∧ cc'.sent (.removePublication 2) = 0 ∧
        cc.mappedBuffers = [.buffers 0, .buffers 1] ∧ cc'.lingering = [.buffers 0])
    (by decide +kernel)
  obtain ⟨hsome, hany⟩ := of_decide_eq_true hcc
  obtain ⟨cc', hclose, hcc'⟩ := (Option.any_eq_true _ _).mp hany
  obtain ⟨hopen, hsent, hmapped, hlingering⟩ := of_decide_eq_true hcc'
  refine ⟨cc, cc', hreach, ok_of_toOption hclose, hopen, hsent, hmapped, hlingering, ?_⟩
  intro hreleased
  obtain ⟨publication, hpublication⟩ := Option.isSome_iff_exists.mp hsome
  obtain ⟨publication', hobject, hclosed, _⟩ := hreleased.publications 1 publication hpublication
  have hsecond : (cc'.publications.map (·.isClosed))[1]? = some true := by
    rw [List.getElem?_map, hobject, Option.map_some, hclosed]
  rw [hopen] at hsecond
  cases hsecond

/-! ## The accounts in every run -/

/-- The objects handed out, against the registrations and the removals sent. -/
def Accounted (cc : ClientConductor) (entries : List (Int × Option Nat)) (objects : List (Int × Bool))
    (removal : Int → Command) : Prop :=
  ∀ (id : Int) (ref : Nat) (closed : Bool), objects[ref]? = some (id, closed) →
    ((id, some ref) ∈ entries ↔ closed = false) ∧ cc.sent (removal id) = closed.toNat

/-- At any time an object is registered exactly while it is open and its removal was sent once it is closed, never
twice; each log buffer and image has one owner, and the channel is never over its capacity. -/
theorem objects_accounted {driverTimeoutNs resourceLingerTimeoutNs : Int} {hasErrorHandler : Bool}
    {cc : ClientConductor} (h : (system driverTimeoutNs resourceLingerTimeoutNs hasErrorHandler).Reachable cc) :
    cc.Accounted cc.pubEntries cc.publicationObjects .removePublication ∧
    cc.Accounted cc.subEntries cc.subscriptionObjects .removeSubscription ∧
    cc.Accounted cc.counterEntries cc.counterObjectsOf .removeCounter ∧
    (∀ resource, resource ≠ .nil → cc.resources.count resource ≤ 1) ∧ cc.lingering.length ≤ lingerCapacity := by
  have hsound := sound_of_reachable h
  refine ⟨fun _ _ _ => hsound.pubs.kept.accounted, fun _ _ _ => hsound.subs.kept.accounted,
    fun _ _ _ => hsound.counters.kept.accounted, hsound.resources.single, ?_⟩
  rw [lingering, List.length_map]
  exact hsound.listed.capacity

/-- The first of two publications is closed. -/
theorem objects_accounted_closed : ∃ cc, (system 1000 100 true).Reachable cc ∧
    cc.publicationObjects = [(1, true), (2, false)] ∧ cc.sent (.removePublication 1) = 1 ∧ (2, some 1) ∈ cc.pubEntries := by
  obtain ⟨cc, hreach, hcc⟩ := System.exists_reachable (· = ClientConductor.init 1000 100 true)
    (fun cc (a : World × Operation) => cc.operate (accepting a.1) a.2) rfl
    (publishing 1 ++ publishing 2 ++ [(world true, .closePublication 0)])
    (fun cc => cc.publicationObjects = [(1, true), (2, false)]) (by decide +kernel)
  have hobjects := of_decide_eq_true hcc
  have haccounts := (objects_accounted hreach).1
  rw [hobjects] at haccounts
  exact ⟨cc, hreach, hobjects, (haccounts 1 0 true rfl).2, (haccounts 2 1 false rfl).1.mpr rfl⟩

end AeronGo.Conductor.ClientConductor
