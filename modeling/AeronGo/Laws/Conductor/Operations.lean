import AeronGo.Laws.Conductor.Close
import AeronGo.Laws.Conductor.Orphans
import AeronGo.Laws.Conductor.Sound

/-!
# Runs of a conductor

Every call of a client and every event of the driver keeps what `Sound` says: an add call makes a registration with a
new id, a find call hands out one object, an event changes a registration in place, and a close takes the object, the
registration and the resources together. Runs in which a call fails or the driver refuses a command are left to
`Laws.Conductor.Calls`.
-/

namespace AeronGo.Conductor.ClientConductor

open Machine Machine.Registry Atomic Driver

variable {w : World} {cc cc' : ClientConductor}

variable {command : Command} {commands : List Command} {now regID : Int} {pub : PublicationState} {ref : Nat}
  {state : CounterState} {subscription : Subscription} {id : Int}

/-- Nothing was sent about an id that was not given out. -/
theorem sent_of_unknown (h : cc.isKnown id = false) (hid : registrationOf command = id) :
    cc.sent command = 0 := by
  rw [sent, List.count_eq_zero]
  intro hmem
  rw [(isKnown_iff cc id).mpr ⟨command, hmem, hid⟩] at h
  cases h

namespace Accounts

/-- Registrations of publications change. -/
theorem withPubs (h : Accounts cc) {pubs : List PublicationState} {publications : List Publication} {nextID : Nat}
    (hpubs : PubsSound { cc with pubs := pubs, publications := publications, nextID := nextID })
    (hresources : ResourcesSound { cc with pubs := pubs, publications := publications, nextID := nextID }) :
    Accounts { cc with pubs := pubs, publications := publications, nextID := nextID } :=
  ⟨h.active, h.running, hpubs, { h.subs with }, { h.counters with }, hresources, h.known⟩

/-- Registrations of subscriptions change. -/
theorem withSubs (h : Accounts cc) {subs : List SubscriptionState} {subscriptions : List Subscription}
    (hsubs : SubsSound { cc with subs := subs, subscriptions := subscriptions })
    (hresources : ResourcesSound { cc with subs := subs, subscriptions := subscriptions }) :
    Accounts { cc with subs := subs, subscriptions := subscriptions } :=
  ⟨h.active, h.running, { h.pubs with }, hsubs, { h.counters with }, hresources, h.known⟩

/-- Counters change and keep their ids. -/
theorem withCounters (h : Accounts cc) {counters : Option (List (Int × CounterState))} {counterObjects : List Counter}
    (hcounters : CountersSound { cc with counters := counters, counterObjects := counterObjects })
    (hids : (counterEntries { cc with counters := counters, counterObjects := counterObjects }).map Prod.fst =
      cc.counterEntries.map Prod.fst) : Accounts { cc with counters := counters, counterObjects := counterObjects } :=
  ⟨h.active, h.running, { h.pubs with }, { h.subs with }, hcounters, { h.resources with },
    fun id hid => h.known id (hids ▸ hid)⟩

end Accounts

/-! ## Adding -/

/-- A command of an add call. -/
def isAdd : Command → Bool
  | .addPublication _ _ _ => true
  | .addExclusivePublication _ _ _ => true
  | .addSubscription _ _ _ => true
  | .addCounter _ _ => true
  | _ => false

/-- An add command is no removal. -/
theorem sent_of_isAdd {other : Command} (hadd : isAdd command = true) (hother : isAdd other = false)
    (h : cc'.commands = cc.commands ++ [command]) : cc'.sent other = cc.sent other := by
  have hne : command ≠ other := by
    rintro rfl
    rw [hadd] at hother
    cases hother
  exact sent_other h hne

section

variable {register : ClientConductor → Except Stop ClientConductor}

/-- A call that registers something does so under an id that no registration had. -/
theorem of_added {outcome : Added} (h : cc.added regID outcome = some cc') :
    cc.isKnown regID = false ∧ ∃ id, outcome = .ok (.ok (id, cc')) := by
  unfold added at h
  split at h
  · cases h
  next hnew =>
    split at h
    · cases h
      exact ⟨Bool.eq_false_of_not_eq_true hnew, _, rfl⟩
    · cases h

/-- An add call that succeeds has sent its command. -/
theorem added_addWith (h : cc.added regID (cc.addWith w regID command register) = some cc') :
    cc.isKnown regID = false ∧ register { cc with commands := cc.commands ++ [command] } = .ok cc' := by
  obtain ⟨hnew, id, hok⟩ := of_added h
  refine ⟨hnew, ?_⟩
  rcases addWith_cases register with ⟨err, heq⟩ | heq
  · rw [heq] at hok
    cases hok
  · rw [heq] at hok
    obtain ⟨b, hb, hrest⟩ := ok_of_bind hok
    cases hrest
    exact hb

end

/-- The other registries do not see an add call. -/
theorem Accounts.asked (h : Accounts cc) (hadd : isAdd command = true) :
    Accounts { cc with commands := cc.commands ++ [command] } := by
  have hsent : ∀ other, isAdd other = false →
      sent { cc with commands := cc.commands ++ [command] } other = cc.sent other :=
    fun other hother => sent_of_isAdd hadd hother rfl
  exact ⟨h.active, h.running, h.pubs.congr rfl rfl fun _ => hsent _ rfl, h.subs.congr rfl rfl fun _ => hsent _ rfl,
    h.counters.congr rfl rfl fun _ => hsent _ rfl, { h.resources with },
    fun id hid => isKnown_append rfl (h.known id hid)⟩

/-- An id that was not asked for is not registered. -/
theorem notMem_of_unknown {α : Type} {f : α → Int × Option Nat} {xs : List α}
    (hknown : ∀ x ∈ xs, cc.isKnown (f x).1 = true) (hid : cc.isKnown id = false) : id ∉ (xs.map f).map Prod.fst := by
  rw [List.map_map]
  intro hmem
  obtain ⟨x, hx, rfl⟩ := List.mem_map.mp hmem
  rw [Function.comp_apply, hknown x hx] at hid
  cases hid

/-- A new registration has no publication yet. -/
theorem Sound.addPublication (h : Sound cc) (hid : cc.isKnown id = false) (hadd : isAdd command = true)
    {channel : String} {streamID : Int} :
    Accounts { cc with
      commands := cc.commands ++ [command]
      pubs := cc.pubs ++ [initPublication channel id streamID now] } := by
  have hasked := h.asked hadd
  have hnew : id ∉ cc.pubEntries.map Prod.fst := notMem_of_unknown (fun pub hpub => (h.listed.pubs.each pub hpub).known) hid
  refine hasked.withPubs ⟨?_⟩ (h.resources.of_perm (List.Perm.of_eq ?_) rfl)
  · have hkept := hasked.pubs.kept.add hnew ((sent_of_isAdd hadd rfl rfl).trans (sent_of_unknown hid rfl))
    rw [pubEntries, List.map_append]
    exact hkept
  · simp [ClientConductor.resources, mappedBuffers, initPublication, heldImages, lingering]

theorem Sound.addSubscription (h : Sound cc) (hid : cc.isKnown id = false) (hadd : isAdd command = true)
    {channel : String} {streamID : Int} {available unavailable : Bool} :
    Accounts { cc with
      commands := cc.commands ++ [command]
      subs := cc.subs ++ [initSubscription channel id streamID now available unavailable] } := by
  have hasked := h.asked hadd
  have hnew : id ∉ cc.subEntries.map Prod.fst := notMem_of_unknown (fun sub hsub => (h.listed.subs.each sub hsub).known) hid
  refine hasked.withSubs ⟨?_, h.subs.emptied⟩ { h.resources with }
  have hkept := hasked.subs.kept.add hnew ((sent_of_isAdd hadd rfl rfl).trans (sent_of_unknown hid rfl))
  rw [subEntries, List.map_append]
  exact hkept

theorem Sound.addCounter (h : Sound cc) (hid : cc.isKnown id = false)
    (hadd : isAdd command = true) (hcommand : registrationOf command = id) {counters : List (Int × CounterState)}
    (hcounters : cc.counters = some counters) (hstate : state.counter = none) :
    Accounts { cc with
      commands := cc.commands ++ [command]
      counters := some (counters.filter (·.1 ≠ id) ++ [(id, state)]) } := by
  have hasked := h.asked hadd
  have hnew : id ∉ cc.counterEntries.map Prod.fst := fun hmem => by
    rw [h.known id hmem] at hid
    cases hid
  have hlist : cc.counterEntries = counters.map fun entry => (entry.1, entry.2.counter) := by
    rw [counterEntries, hcounters]
    rfl
  have hothers : counters.filter (·.1 ≠ id) = counters := by
    refine List.filter_eq_self.mpr fun e he => decide_eq_true fun heq => hnew ?_
    rw [hlist, List.map_map]
    exact heq ▸ List.mem_map_of_mem he
  have hentries : counterEntries { cc with
      commands := cc.commands ++ [command]
      counters := some (counters.filter (·.1 ≠ id) ++ [(id, state)]) } = cc.counterEntries ++ [(id, none)] := by
    rw [counterEntries, hothers, hlist, ← hstate]
    exact List.map_append
  refine ⟨h.active, h.running, { hasked.pubs with }, { hasked.subs with }, ⟨?_⟩, { h.resources with }, fun i hi => ?_⟩
  · rw [hentries]
    exact hasked.counters.kept.add hnew ((sent_of_isAdd hadd rfl rfl).trans (sent_of_unknown hid rfl))
  · rw [hentries, List.map_append, List.mem_append] at hi
    rcases hi with hi | hi
    · exact hasked.known i hi
    · rw [List.mem_singleton.mp hi]
      exact Listed.known_append id hcommand

/-! ## Finding -/

/-- An update of registrations that keeps their ids and logs. -/
theorem mappedBuffers_map {f : PublicationState → PublicationState} (hpubs : cc'.pubs = cc.pubs.map f)
    (hf : ∀ pub, (f pub).buffers = pub.buffers) : cc'.mappedBuffers = cc.mappedBuffers := by
  rw [mappedBuffers, hpubs, List.flatMap_map, mappedBuffers]
  simp only [hf]

/-- A publication that is handed out is entered with its registration. -/
theorem Accounts.handPublication (h : Accounts cc) (hpub : pub ∈ cc.pubs)
    (hnone : pub.publication = none) {publication : Publication}
    (hid : publication.regID = pub.regID) (hopen : publication.isClosed = false) :
    Accounts { cc.setPublication pub.regID cc.publications.length with
      publications := cc.publications ++ [publication] } := by
  have hlength : cc.publicationObjects.length = cc.publications.length := List.length_map _
  have hentries : (cc.setPublication pub.regID cc.publications.length).pubEntries =
      cc.pubEntries.map fun e => if e.1 = pub.regID then (pub.regID, some cc.publicationObjects.length) else e := by
    rw [pubEntries, setPublication, pubEntries, List.map_map, List.map_map, hlength]
    refine List.map_congr_left fun p _ => ?_
    simp only [Function.comp_apply]
    split
    next heq => rw [heq]
    next => rfl
  have hentry : (pub.regID, none) ∈ cc.pubEntries := List.mem_map.mpr ⟨pub, hpub, by rw [hnone]⟩
  refine h.withPubs ⟨?_⟩ (h.resources.of_perm (List.Perm.of_eq ?_) rfl)
  · have hkept := h.pubs.kept.handOut hentry
    rw [← hentries] at hkept
    rw [publicationObjects, List.map_append, List.map_singleton, hid, hopen]
    exact hkept
  · have hbuffers : (cc.setPublication pub.regID cc.publications.length).mappedBuffers = cc.mappedBuffers := by
      refine mappedBuffers_map rfl fun p => ?_
      split <;> rfl
    exact congrArg (· ++ (cc.heldImages ++ cc.lingering)) hbuffers

theorem Accounts.findPublication (h : Accounts cc) (regID : Int) : Accounts (cc.findPublication w regID).2.2 := by
  unfold ClientConductor.findPublication
  cases hfind : cc.pubs.find? (·.regID = regID) with
  | none => exact h
  | some pub =>
    have hpub := List.mem_of_find?_eq_some hfind
    have hid : pub.regID = regID := by simpa using List.find?_some hfind
    cases hnone : pub.publication with
    | some ref => simpa only [hnone] using h
    | none =>
      cases hstatus : pub.status with
      | awaitingMediaDriver | erroredMediaDriver => simpa only [hnone, hstatus] using h
      | registeredMediaDriver =>
        subst hid
        simp only [hnone, hstatus]
        exact h.handPublication hpub hnone rfl rfl

theorem Accounts.findSubscription (h : Accounts cc) (regID : Int) : Accounts (cc.findSubscription w regID).2.2 := by
  unfold ClientConductor.findSubscription
  split
  · exact h
  · split <;> exact h

/-! ### Counters in the map -/

theorem counterEntries_setCounter (cc : ClientConductor) (id : Int) (state : CounterState) :
    (cc.setCounter id state).counterEntries =
      cc.counterEntries.map fun e => if e.1 = id then (id, state.counter) else e := by
  rw [counterEntries, counterEntries, setCounter]
  cases cc.counters with
  | none => rfl
  | some counters =>
    rw [Option.map_some, Option.getD_some, Option.getD_some, List.map_map, List.map_map]
    refine List.map_congr_left fun e _ => ?_
    simp only [Function.comp_apply]
    split <;> rfl

/-- A counter that keeps what it handed out. -/
theorem Accounts.setCounter (h : Accounts cc) {state' : CounterState} (hfound : cc.counter? id = some state)
    (hsame : state'.counter = state.counter) : Accounts (cc.setCounter id state') := by
  have hentries : (cc.setCounter id state').counterEntries = cc.counterEntries := by
    rw [counterEntries_setCounter]
    refine (List.map_congr_left fun e he => ?_).trans (List.map_id _)
    split
    next heq =>
      have hentry : (id, state.counter) ∈ cc.counterEntries := List.mem_map.mpr ⟨_, mem_of_counter? hfound, rfl⟩
      obtain ⟨i, ref⟩ := e
      obtain rfl : i = id := heq
      rw [hsame, h.counters.kept.eq_of_mem hentry he]
      rfl
    next => rfl
  refine h.withCounters ⟨?_⟩ (congrArg (List.map Prod.fst) hentries)
  show Kept (cc.setCounter id state').counterEntries _ _
  rw [hentries]
  exact h.counters.kept

theorem Accounts.handCounter (h : Accounts cc) (hfound : cc.counter? id = some state)
    (hnone : state.counter = none) {counter : Counter} (hid : counter.registrationId = id)
    (hopen : counter.isClosed = false) :
    Accounts { cc.setCounter id { state with counter := some cc.counterObjects.length } with
      counterObjects := cc.counterObjects ++ [counter] } := by
  have hlength : cc.counterObjectsOf.length = cc.counterObjects.length := List.length_map _
  have hentries := counterEntries_setCounter cc id { state with counter := some cc.counterObjects.length }
  have hentry : (id, none) ∈ cc.counterEntries := List.mem_map.mpr ⟨_, mem_of_counter? hfound, by rw [hnone]⟩
  refine h.withCounters ⟨?_⟩ ?_
  · have hkept := h.counters.kept.handOut hentry
    rw [hlength, ← hentries] at hkept
    rw [counterObjectsOf, List.map_append, List.map_singleton, hid, hopen]
    exact hkept
  · show (cc.setCounter id { state with counter := some cc.counterObjects.length }).counterEntries.map Prod.fst = _
    rw [hentries, List.map_map]
    refine List.map_congr_left fun e _ => ?_
    simp only [Function.comp_apply]
    split
    next heq => exact heq.symm
    next => rfl

theorem Accounts.findCounter (h : Accounts cc) (regID : Int) (newCounterError : Option String) :
    Accounts (cc.findCounter w regID newCounterError).2.2 := by
  unfold ClientConductor.findCounter
  cases hfound : cc.counter? regID with
  | none => exact h
  | some state =>
    cases hnone : state.counter with
    | some ref => simpa only [hnone] using h
    | none =>
      cases hstatus : state.status with
      | awaitingMediaDriver | erroredMediaDriver => simpa only [hnone, hstatus] using h
      | registeredMediaDriver =>
        cases newCounterError with
        | some err => simpa only [hnone, hstatus] using h
        | none =>
          have hhanded := @Accounts.handCounter cc state regID h hfound hnone ⟨regID, state.counterId, false⟩ rfl rfl
          simpa only [hnone, hstatus] using hhanded

/-! ## Events -/

/-- A resource with the next number is added, and others may go. -/
theorem ResourcesSound.fresh (h : ResourcesSound cc) (resource : Resource) (hfresh : ¬ Numbered cc.nextID resource)
    (hnext : Numbered (cc.nextID + 1) resource) (hid : cc'.nextID = cc.nextID + 1)
    (hcount : ∀ other, cc'.resources.count other ≤ cc.resources.count other + if other = resource then 1 else 0) :
    ResourcesSound cc' := by
  refine ⟨fun other hne => ?_, fun other hmem => ?_⟩
  · refine Nat.le_trans (hcount other) ?_
    split
    next heq =>
      have hzero : cc.resources.count other = 0 :=
        List.count_eq_zero.mpr fun hmem => hfresh (heq ▸ h.numbered other hmem)
      rw [hzero]
    next => exact h.single other hne
  · rw [hid]
    have hpos := Nat.lt_of_lt_of_le (List.count_pos_iff.mpr hmem) (hcount other)
    by_cases heq : other = resource
    · exact heq ▸ hnext
    · rw [if_neg heq, Nat.add_zero] at hpos
      exact (h.numbered other (List.count_pos_iff.mp hpos)).mono (Nat.le_succ _)

/-- A log that is mapped belongs to the registration that the driver answered. -/
theorem Accounts.mapPublication (h : Accounts cc) {front back : List PublicationState} {pub' : PublicationState}
    (hsplit : cc.pubs = front ++ pub :: back) (hid : pub'.regID = pub.regID)
    (href : pub'.publication = pub.publication) {logFileName : String}
    (hbuffers : pub'.buffers = some ⟨cc.nextID, logFileName, 1⟩) :
    Accounts { cc with nextID := cc.nextID + 1, pubs := front ++ pub' :: back } := by
  have hentries : pubEntries { cc with nextID := cc.nextID + 1, pubs := front ++ pub' :: back } = cc.pubEntries := by
    rw [pubEntries, pubEntries, hsplit, List.map_append, List.map_append, List.map_cons, List.map_cons, hid, href]
  refine h.withPubs ⟨?_⟩ (h.resources.fresh (.buffers cc.nextID) (Nat.lt_irrefl _) (Nat.lt_succ_self _) rfl ?_)
  · rw [hentries]
    exact h.pubs.kept
  · intro other
    rw [count_resources, count_resources, mappedBuffers, mappedBuffers, hsplit]
    simp only [List.flatMap_append, List.flatMap_cons, List.count_append, hbuffers, Option.toList_some, List.map_cons,
      List.map_nil, List.count_singleton, heldImages, lingering, beq_iff_eq, eq_comm (a := other)]
    omega

theorem Accounts.onNewPublication (h : Accounts cc) {sessionID posLimitCounterID channelStatusIndicatorID : Int}
    {logFileName : String} {origRegID : Int}
    (hcc : cc.onNewPublication sessionID posLimitCounterID channelStatusIndicatorID logFileName regID origRegID = .ok cc') :
    Accounts cc' := by
  obtain ⟨⟨pubs, b⟩, hupdate, hrest⟩ := ok_of_bind hcc
  cases hrest
  rcases updateEach_cases h.pubs.distinct hupdate with ⟨rfl, rfl⟩ | ⟨front, pub, pub', back, hsplit, hid, hpub, rfl⟩
  · exact h
  · cases hpub
    exact h.mapPublication hsplit rfl rfl rfl

/-- A subscription that is announced the first time is handed out. -/
theorem Accounts.readySubscription (h : Accounts cc) {front back : List SubscriptionState} {sub : SubscriptionState}
    (hsplit : cc.subs = front ++ sub :: back) (hnone : sub.subscription = none) (sub' : SubscriptionState) (hid : sub'.regID = sub.regID)
    (href : sub'.subscription = some cc.subscriptions.length) (subscription : Subscription)
    (hregID : subscription.registrationID = sub.regID) (hopen : subscription.isClosed = false)
    (himages : subscription.images = []) :
    Accounts { cc with subscriptions := cc.subscriptions ++ [subscription], subs := front ++ sub' :: back } := by
  have hlength : cc.subscriptionObjects.length = cc.subscriptions.length := List.length_map _
  obtain ⟨hfront, hback⟩ := others_of_nodup (hsplit ▸ h.subs.distinct)
  have hkeep : ∀ xs : List SubscriptionState, (∀ y ∈ xs, decide (y.regID = sub.regID) = false) →
      (xs.map fun s => (s.regID, s.subscription)).map
        (fun e => if e.1 = sub.regID then (sub.regID, some cc.subscriptionObjects.length) else e) =
      xs.map fun s => (s.regID, s.subscription) := by
    intro xs hxs
    rw [List.map_map]
    exact List.map_congr_left fun y hy => if_neg (of_decide_eq_false (hxs y hy))
  have hentries : (front ++ sub' :: back).map (fun s => (s.regID, s.subscription)) =
      cc.subEntries.map fun e => if e.1 = sub.regID then (sub.regID, some cc.subscriptionObjects.length) else e := by
    rw [subEntries, hsplit, List.map_append, List.map_append, List.map_cons, List.map_append, List.map_cons, hkeep front hfront,
      List.map_cons, hkeep back hback, if_pos rfl, hid, href, hlength]
  have hentry : (sub.regID, none) ∈ cc.subEntries :=
    List.mem_map.mpr ⟨sub, by rw [hsplit]; simp, by rw [hnone]⟩
  refine h.withSubs ⟨?_, ?_⟩ (h.resources.of_perm (List.Perm.of_eq ?_) rfl)
  · have hkept := h.subs.kept.handOut hentry
    rw [← hentries] at hkept
    rw [subscriptionObjects, List.map_append, List.map_singleton, hregID, hopen]
    exact hkept
  · intro s hs hclosed
    rcases List.mem_append.mp hs with hs | hs
    · exact h.subs.emptied s hs hclosed
    · rw [List.mem_singleton.mp hs]
      exact himages
  · simp [ClientConductor.resources, mappedBuffers, heldImages, lingering, himages]

theorem Accounts.onSubscriptionReady (h : Accounts cc) {correlationID channelStatusIndicatorID : Int}
    (hpending : ∀ sub ∈ cc.subs, sub.regID = correlationID → sub.subscription = none)
    (hcc : cc.onSubscriptionReady correlationID channelStatusIndicatorID = .ok cc') : Accounts cc' := by
  obtain ⟨⟨subs, b⟩, hupdate, hrest⟩ := ok_of_bind hcc
  cases hrest
  rcases updateEach_cases h.subs.distinct hupdate with ⟨rfl, rfl⟩ | ⟨front, sub, sub', back, hsplit, hid, hsub, rfl⟩
  · exact h
  · cases hsub
    have hmem : sub ∈ cc.subs := by
      rw [hsplit]
      simp
    exact h.readySubscription hsplit (hpending sub hmem hid)
      { sub with status := .registeredMediaDriver, subscription := some cc.subscriptions.length } rfl rfl
      ⟨sub.channel, sub.regID, sub.streamID, channelStatusIndicatorID, [], false, sub.availableImageHandler,
        sub.unavailableImageHandler⟩ rfl rfl rfl

/-- The image list of an open subscription changes. -/
theorem SubsSound.setImages (h : SubsSound cc)
    (hobject : cc.subscriptions[ref]? = some subscription) (hopen : subscription.isClosed = false) (images : List Image)
    (hsubs : cc'.subs = cc.subs)
    (hsubscriptions : cc'.subscriptions = cc.subscriptions.set ref { subscription with images := images })
    (hsent : ∀ id, cc'.sent (.removeSubscription id) = cc.sent (.removeSubscription id)) : SubsSound cc' := by
  refine ⟨?_, ?_⟩
  · have hobjects : cc'.subscriptionObjects = cc.subscriptionObjects := by
      rw [subscriptionObjects, hsubscriptions]
      exact map_set_of_eq hobject rfl
    rw [hobjects, subEntries, hsubs, funext hsent]
    exact h.kept
  · rw [hsubscriptions]
    intro s hs hclosed
    rcases List.mem_or_eq_of_mem_set hs with hs | rfl
    · exact h.emptied s hs hclosed
    · rw [hopen] at hclosed
      cases hclosed

/-- The images of a subscription, apart from those of the others. -/
theorem count_heldImages_set {subscription' : Subscription}
    (hobject : cc.subscriptions[ref]? = some subscription)
    (hsubscriptions : cc'.subscriptions = cc.subscriptions.set ref subscription') (resource : Resource) :
    (subscription'.images.map fun image => Resource.image image.id).count resource + cc.heldImages.count resource =
      (subscription.images.map fun image => Resource.image image.id).count resource + cc'.heldImages.count resource := by
  have hperm := flatMap_set_perm (fun s : Subscription => s.images.map fun image => Resource.image image.id) hobject
    subscription'
  have hcount := hperm.count_eq resource
  rw [List.count_append, List.count_append] at hcount
  rw [heldImages, heldImages, hsubscriptions]
  exact hcount

/-- An image event finds a subscription that is ready, or changes nothing. -/
theorem imageEvent_cases (h : Accounts cc) (regID : Int) :
    (∀ sub ∈ cc.subs, sub.regID = regID → sub.subscription = none) ∨
      ∃ ref subscription, Registered cc regID ref ∧ cc.subscriptions[ref]? = some subscription ∧
        subscription.isClosed = false := by
  by_cases hany : ∃ sub ∈ cc.subs, sub.regID = regID ∧ sub.subscription ≠ none
  · obtain ⟨sub, hsub, hid, hsome⟩ := hany
    obtain ⟨ref, href⟩ := Option.ne_none_iff_exists'.mp hsome
    obtain ⟨subscription, hobject, hopen, _⟩ := h.subs.handedOut hsub href
    exact .inr ⟨ref, subscription, ⟨h.subs.distinct, sub, hsub, hid, href⟩, hobject, hopen⟩
  · exact .inl fun sub hsub hid => by_contra fun hsome => hany ⟨sub, hsub, hid, hsome⟩

/-- A new image belongs to the subscription it is announced for. -/
theorem Accounts.onAvailableImage (h : Accounts cc) {sessionID corrID : Int}
    (hcc : cc.onAvailableImage sessionID regID corrID = .ok cc') : Accounts cc' := by
  rcases imageEvent_cases h regID with hunready | ⟨ref, subscription, hreg, hobject, hopen⟩
  · rw [onAvailableImage_unready hunready] at hcc
    cases hcc
    exact h
  · obtain ⟨calls, heq⟩ := onAvailableImage_registered hreg hobject sessionID corrID
    rw [heq] at hcc
    cases hcc
    refine ⟨h.active, h.running, { h.pubs with },
      h.subs.setImages hobject hopen (subscription.images ++ [⟨cc.nextID, sessionID, corrID⟩]) rfl rfl fun _ => rfl,
      { h.counters with }, ?_, h.known⟩
    refine h.resources.fresh (.image cc.nextID) (Nat.lt_irrefl _) (Nat.lt_succ_self _) rfl fun other => ?_
    have hcount := count_heldImages_set hobject (show ClientConductor.subscriptions { cc with
      nextID := cc.nextID + 1
      subscriptions := cc.subscriptions.set ref (addImage subscription ⟨cc.nextID, sessionID, corrID⟩)
      imageCalls := calls } = _ from rfl) other
    simp only [addImage, ImageList.addImage, List.map_append, List.map_cons, List.map_nil, List.count_append, List.count_singleton,
      beq_iff_eq, eq_comm (a := Resource.image cc.nextID)] at hcount
    rw [count_resources, count_resources]
    simp only [mappedBuffers, lingering, addImage, ImageList.addImage]
    omega

/-- An image that goes moves to the channel. -/
theorem Accounts.onUnavailableImage (h : Accounts cc) {corrID : Int}
    (hcc : cc.onUnavailableImage w corrID regID = .ok cc') : Accounts cc' := by
  rcases imageEvent_cases h regID with hunready | ⟨ref, subscription, hreg, hobject, hopen⟩
  · rw [onUnavailableImage_unready hunready] at hcc
    cases hcc
    exact h
  · obtain ⟨time, calls, rfl, _⟩ := onUnavailableImage_registered hreg hobject hcc
    obtain ⟨images, hsubscription, hmoved⟩ : ∃ images,
        (removeImage subscription corrID).2 = { subscription with images := images } ∧
        ∀ resource, resource ≠ .nil → (images.map fun image => Resource.image image.id).count resource +
          [resourceOf (removeImage subscription corrID).1].count resource =
            (subscription.images.map fun image => Resource.image image.id).count resource := by
      rcases removeImage_cases subscription corrID with hsame | ⟨image, images, hperm, htaken⟩
      · refine ⟨subscription.images, by rw [hsame], fun resource hne => ?_⟩
        rw [hsame, resourceOf, List.count_singleton, if_neg (by simpa using Ne.symm hne), Nat.add_zero]
      · refine ⟨images, by rw [htaken], fun resource _ => ?_⟩
        have hcount := (hperm.map fun image : Image => Resource.image image.id).count_eq resource
        rw [List.map_cons, List.count_cons] at hcount
        rw [htaken, resourceOf, List.count_singleton]
        exact hcount
    refine ⟨h.active, h.running, { h.pubs with },
      h.subs.setImages hobject hopen images rfl (by rw [hsubscription]) fun _ => rfl,
      { h.counters with }, h.resources.of_count (fun resource hne => ?_) rfl, h.known⟩
    have hcount := count_heldImages_set hobject (show ClientConductor.subscriptions { cc with
      subscriptions := cc.subscriptions.set ref (removeImage subscription corrID).2
      imageCalls := calls
      lingeringResources := cc.lingeringResources ++
        [⟨time, resourceOf (removeImage subscription corrID).1⟩] } = _ from rfl) resource
    have hresource := hmoved resource hne
    rw [count_resources, count_resources]
    simp only [mappedBuffers, lingering, List.map_append, List.map_cons, List.map_nil, List.count_append,
      hsubscription] at hcount ⊢
    omega

theorem Accounts.onAvailableCounter (h : Accounts cc) (registrationId counterId : Int) :
    Accounts (cc.onAvailableCounter registrationId counterId) := by
  unfold ClientConductor.onAvailableCounter
  cases hfound : cc.counter? registrationId with
  | none => exact h
  | some state =>
    simp only
    split
    · exact h.setCounter hfound rfl
    · exact h

/-- A note in registrations of publications, which keep their ids, what they handed out and their logs. -/
theorem Accounts.notePubs (h : Accounts cc) {f : PublicationState → PublicationState}
    (hid : ∀ pub, (f pub).regID = pub.regID) (href : ∀ pub, (f pub).publication = pub.publication)
    (hbuffers : ∀ pub, (f pub).buffers = pub.buffers) : Accounts { cc with pubs := cc.pubs.map f } := by
  have hentries : pubEntries { cc with pubs := cc.pubs.map f } = cc.pubEntries := by
    simp only [pubEntries, List.map_map, Function.comp_def, hid, href]
  refine h.withPubs ⟨?_⟩ (h.resources.of_perm (List.Perm.of_eq ?_) rfl)
  · rw [hentries]
    exact h.pubs.kept
  · exact congrArg (· ++ (cc.heldImages ++ cc.lingering)) (mappedBuffers_map rfl hbuffers)

/-- What is noted of a registration beside its id and its subscription does not count. -/
theorem Accounts.noteSubs (h : Accounts cc) {f : SubscriptionState → SubscriptionState}
    (hid : ∀ sub, (f sub).regID = sub.regID) (href : ∀ sub, (f sub).subscription = sub.subscription) :
    Accounts { cc with subs := cc.subs.map f } := by
  have hentries : subEntries { cc with subs := cc.subs.map f } = cc.subEntries := by
    simp only [subEntries, List.map_map, Function.comp_def, hid, href]
  refine h.withSubs ⟨?_, h.subs.emptied⟩ { h.resources with }
  rw [hentries]
  exact h.subs.kept

/-- An error is noted in registrations, which keep what they handed out. -/
theorem Accounts.onErrorResponse (h : Accounts cc) (corrID errorCode : Int) (errorMessage : String) :
    Accounts (cc.onErrorResponse corrID errorCode errorMessage) := by
  unfold ClientConductor.onErrorResponse
  cases hfound : cc.counter? corrID with
  | some state => exact h.setCounter hfound rfl
  | none =>
    simp only
    split
    · refine h.notePubs (fun pub => ?_) (fun pub => ?_) (fun pub => ?_) <;> split <;> rfl
    · refine h.noteSubs (fun sub => ?_) (fun sub => ?_) <;> split <;> rfl

/-- The lingering check takes from the channel what it closes. -/
theorem Accounts.onCheckManagedResources (h : Accounts cc) (hcc : cc.onCheckManagedResources w now = .ok cc') :
    Accounts cc' := by
  obtain ⟨entries, left, hperm, rfl⟩ := checkLingering_ok rfl hcc
  refine ⟨h.active, h.running, { h.pubs with }, { h.subs with }, { h.counters with },
    h.resources.of_count (fun resource _ => ?_) rfl, h.known⟩
  have hcount := (hperm.map (·.resource)).count_eq resource
  rw [List.map_append, List.count_append] at hcount
  rw [count_resources, count_resources]
  exact Nat.add_le_add_left (hcount ▸ Nat.le_add_left _ _) _

/-! ## Closing -/

theorem Accounts.afterPublication (h : Accounts cc) {front back : List PublicationState}
    {publication : Publication} {buffers : LogBuffers} (hsplit : cc.pubs = front ++ pub :: back)
    (href : pub.publication = some ref) (hobject : cc.publications[ref]? = some publication)
    (hid : publication.regID = pub.regID) (hbuffers : pub.buffers = some buffers) :
    Accounts (afterClosePublication w cc front.length ref publication buffers) := by
  have hcloses := afterClosePublication_closes (w := w) hsplit hobject hbuffers
  refine ⟨h.active, h.running, h.pubs.closed hsplit href hid, h.subs.congr rfl rfl hcloses.subscriptionsSent,
    h.counters.congr rfl rfl hcloses.countersSent, h.resources.of_perm hcloses.resources rfl,
    fun id hid => isKnown_append rfl (h.known id hid)⟩

theorem Accounts.afterSubscription (h : Accounts cc) {front back : List SubscriptionState} {sub : SubscriptionState}
    {calls : List ImageCall} (hsplit : cc.subs = front ++ sub :: back)
    (href : sub.subscription = some ref) (hobject : cc.subscriptions[ref]? = some subscription)
    (hid : subscription.registrationID = sub.regID) :
    Accounts (afterCloseSubscription w cc front.length ref subscription calls) := by
  have hcloses := afterCloseSubscription_closes (w := w) hobject front.length calls
  refine ⟨h.active, h.running, h.pubs.congr rfl rfl hcloses.publicationsSent, h.subs.closed hsplit href hid,
    h.counters.congr rfl rfl hcloses.countersSent, h.resources.of_perm hcloses.resources rfl,
    fun id hid => isKnown_append rfl (h.known id hid)⟩

theorem Accounts.afterCounter (h : Accounts cc) {counter : Counter}
    (hstate : (id, state) ∈ cc.counterList) (href : state.counter = some ref)
    (hobject : cc.counterObjects[ref]? = some counter) (hid : counter.registrationId = id) :
    Accounts (cc.afterCloseCounter ref counter) := by
  have hcloses := afterCloseCounter_closes hobject
  refine ⟨h.active, h.running, h.pubs.congr rfl rfl hcloses.publicationsSent, h.subs.congr rfl rfl hcloses.subscriptionsSent,
    h.counters.closed hstate href hid, { h.resources with }, fun i hi => isKnown_append rfl (h.known i ?_)⟩
  rw [counterEntries, List.map_map] at hi ⊢
  obtain ⟨e, he, heq⟩ := List.mem_map.mp hi
  have hmem : e ∈ cc.counterList.filter (·.1 ≠ counter.registrationId) :=
    counterList_delete cc counter.registrationId ▸ he
  exact List.mem_map.mpr ⟨e, (List.mem_filter.mp hmem).1, heq⟩

/-- A `Close` that succeeds found the object closed, or released it. -/
theorem Sound.close (h : Sound cc) (htakes : ∀ command, w.takes command = true) (handle : Handle)
    (hcc : closed (ClientConductor.close w cc handle) = some cc') : Accounts cc' := by
  cases hstate : cc.isClosed? handle with
  | none =>
    rw [close_of_none hstate] at hcc
    cases hcc
  | some isClosed =>
    cases isClosed with
    | true =>
      rw [close_of_closed hstate] at hcc
      cases hcc
      exact h.toAccounts
    | false =>
      cases handle with
      | publication ref =>
        obtain ⟨publication, hobject, hopen⟩ := Option.map_eq_some_iff.mp hstate
        obtain ⟨pub, hpub, heq⟩ := h.pubs.kept.entry hobject hopen
        obtain ⟨hregID, href⟩ := Prod.mk.inj heq
        obtain ⟨_, buffers, hobject', _, hid, hbuffers, honce⟩ := h.pubs.handedOut h.listed hpub href
        cases hobject.symm.trans hobject'
        obtain ⟨front, back, hsplit⟩ := List.append_of_mem hpub
        rw [ClientConductor.close, closePublication_eq h.active (htakes _) h.pubs.distinct hsplit hobject hopen hid
          hbuffers honce] at hcc
        split at hcc
        next =>
          cases hcc
          exact h.afterPublication hsplit href hobject hid hbuffers
        next => cases hcc
      | subscription ref =>
        obtain ⟨subscription, hobject, hopen⟩ := Option.map_eq_some_iff.mp hstate
        obtain ⟨sub, hsub, heq⟩ := h.subs.kept.entry hobject hopen
        obtain ⟨hregID, href⟩ := Prod.mk.inj heq
        obtain ⟨front, back, hsplit⟩ := List.append_of_mem hsub
        obtain ⟨handler, hclose⟩ := closeSubscription_eq h.active (htakes _) h.subs.distinct h.listed.capacity hsplit
          hobject hopen hregID.symm
        rw [ClientConductor.close, hclose] at hcc
        split at hcc
        next =>
          cases hcc
          exact h.afterSubscription hsplit href hobject hregID.symm
        next => cases hcc
      | counter ref =>
        obtain ⟨counter, hobject, hopen⟩ := Option.map_eq_some_iff.mp hstate
        obtain ⟨⟨id, state⟩, hstate, heq⟩ := h.counters.kept.entry hobject hopen
        obtain ⟨rfl, href⟩ := Prod.mk.inj heq
        rw [ClientConductor.close, closeCounter_eq h.active (htakes _) hobject hopen
          (counter?_of_mem h.counters.distinct hstate)] at hcc
        cases hcc
        exact h.afterCounter hstate href hobject rfl

/-! ## Runs -/

/-- Every call and every event that ends well keeps what `Sound` says, if the driver takes all commands. -/
theorem Sound.operate (h : Sound cc) (htakes : ∀ command, w.takes command = true) {operation : Operation}
    (hcc : cc.operate w operation = some cc') : Sound cc' := by
  refine ⟨?_, h.listed.perform (perform_of_operate hcc)⟩
  cases operation with
  | addPublication regID channel streamID | addExclusivePublication regID channel streamID =>
    obtain ⟨hnew, hregister⟩ := added_addWith hcc
    cases hregister
    exact h.addPublication hnew rfl
  | addSubscription regID channel streamID available unavailable =>
    obtain ⟨hnew, hregister⟩ := added_addWith hcc
    cases hregister
    exact h.addSubscription hnew rfl
  | addCounter regID typeId keyLength labelLength =>
    simp only [ClientConductor.operate, ClientConductor.addCounter] at hcc
    split at hcc
    · obtain ⟨_, _, hok⟩ := of_added hcc
      split at hok <;> cases hok
    split at hcc
    · obtain ⟨_, _, hok⟩ := of_added hcc
      split at hok <;> cases hok
    obtain ⟨hnew, hregister⟩ := added_addWith hcc
    cases hcounters : cc.counters with
    | none => simp only [registerCounter, hcounters] at hregister; cases hregister
    | some counters =>
      simp only [registerCounter, hcounters] at hregister
      cases hregister
      exact h.addCounter hnew rfl rfl hcounters rfl
  | findPublication regID =>
    cases hcc
    exact h.findPublication regID
  | findSubscription regID =>
    cases hcc
    exact h.findSubscription regID
  | findCounter regID newCounterError =>
    cases hcc
    exact h.findCounter regID newCounterError
  | closePublication ref => exact h.close htakes (.publication ref) hcc
  | closeSubscription ref => exact h.close htakes (.subscription ref) hcc
  | closeCounter ref => exact h.close htakes (.counter ref) hcc
  | newPublication sessionID posLimitCounterID channelStatusIndicatorID logFileName regID origRegID =>
    exact h.onNewPublication (ok_of_toOption hcc)
  | subscriptionReady correlationID channelStatusIndicatorID =>
    simp only [ClientConductor.operate] at hcc
    split at hcc
    · cases hcc
    next hpending =>
      refine h.onSubscriptionReady (fun sub hsub hid => ?_) (ok_of_toOption hcc)
      by_contra hne
      exact hpending (List.any_eq_true.mpr ⟨sub, hsub, decide_eq_true ⟨hid, Option.isSome_iff_ne_none.mpr hne⟩⟩)
  | availableCounter registrationId counterId =>
    cases hcc
    exact h.onAvailableCounter registrationId counterId
  | availableImage sessionID subsRegID corrID => exact h.onAvailableImage (ok_of_toOption hcc)
  | unavailableImage corrID subscriptionRegistrationID => exact h.onUnavailableImage (ok_of_toOption hcc)
  | errorResponse corrID errorCode errorMessage =>
    cases hcc
    exact h.onErrorResponse corrID errorCode errorMessage
  | checkManagedResources now => exact h.onCheckManagedResources (ok_of_toOption hcc)

theorem sound_init (driverTimeoutNs resourceLingerTimeoutNs : Int) (hasErrorHandler : Bool) :
    Sound (.init driverTimeoutNs resourceLingerTimeoutNs hasErrorHandler) := by
  exact ⟨⟨rfl, rfl, ⟨.nil⟩, ⟨.nil, nofun⟩, ⟨.nil⟩, ⟨fun _ _ => Nat.zero_le _, nofun⟩, nofun⟩, listed_init _ _ _⟩

/-- What `Sound` says holds in every run. -/
theorem sound_of_reachable {driverTimeoutNs resourceLingerTimeoutNs : Int} {hasErrorHandler : Bool}
    (h : (system driverTimeoutNs resourceLingerTimeoutNs hasErrorHandler).Reachable cc) : Sound cc := by
  refine h.invariant (I := Sound) ?_ ?_
  · intro s hs
    rw [show s = _ from hs]
    exact sound_init _ _ _
  · intro s a t hs hstep
    exact hs.operate (fun _ => rfl) hstep

end AeronGo.Conductor.ClientConductor
