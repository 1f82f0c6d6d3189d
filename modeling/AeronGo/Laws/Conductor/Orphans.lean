import AeronGo.Conductor.Closing
import AeronGo.Laws.Conductor.Lingering
import Mathlib.Data.List.Count

/-!
# Images of a subscription that is being closed

Each image made for the subscription is in its list, or was taken by the `Close`, or lingers or was closed
(`Balanced`). `releaseSubscription` hands on what was taken and drops the registration; an image that became
available after the list was taken then stays in the list for good. So the `Close` leaves no image behind if and
only if the list is empty when `releaseSubscription` runs.
-/

namespace AeronGo.Conductor

open Machine Atomic Driver

/-! ## The check of lingering resources -/

namespace ClientConductor

variable {w : World}

/-- Only what lingers and what is closed may differ, and together they are the same. -/
structure Checked (a b : ClientConductor) : Prop where
  subs : b.subs = a.subs
  subscriptions : b.subscriptions = a.subscriptions
  nextID : b.nextID = a.nextID
  driverActive : b.driverActive = a.driverActive
  settled : ∀ id, b.settled.count (.image id) = a.settled.count (.image id)

theorem checkLingering_checked {now : Int} {queue : List LingerResource} {a b : ClientConductor}
    (hqueue : a.lingeringResources = queue) (h : checkLingering w now queue a = .ok b) : Checked a b := by
  obtain ⟨entries, left, hperm, rfl⟩ := checkLingering_ok hqueue h
  have hcount : ∀ id, ((entries ++ left).map (·.resource)).count (.image id) =
      (queue.map (·.resource)).count (.image id) := fun id => (hperm.map _).count_eq _
  have hclosed : ∀ id, (resourcesOf entries).count (.image id) = (entries.map (·.resource)).count (.image id) :=
    fun id => List.count_filter rfl
  refine ⟨rfl, rfl, rfl, rfl, fun id => ?_⟩
  simp only [settled, afterClosing, hqueue, List.count_append, hclosed, ← hcount, List.map_append]
  omega

/-- The image that is removed leaves the others in the list. -/
theorem removeImage_cases (subscription : Subscription) (corrID : Int) :
    removeImage subscription corrID = (none, subscription) ∨
    ∃ image images, (image :: images).Perm subscription.images ∧
      removeImage subscription corrID = (some image, { subscription with images := images }) := by
  rcases Slice.removeFirst_cases (·.correlationID = corrID) subscription.images with
    ⟨hsame, _⟩ | ⟨image, images, hremoved, _, hperm⟩
  · exact .inl (by rw [removeImage, ImageList.removeImage, hsame])
  · exact .inr ⟨image, images, hperm, by rw [removeImage, ImageList.removeImage, hremoved]⟩

end ClientConductor

/-! ## Where the images are -/

variable {err : Option String} {s t : Closing} {subscription : Subscription}

namespace Closing

variable {regID : Int} {ref : Nat}

/-- The images that the `Close` has taken and not yet handed on. -/
def takenImages (s : Closing) : List Image :=
  match s.phase with
  | .taken images => images
  | _ => []

/-- The numbers of the images in the list and of those taken. -/
def held (ref : Nat) (s : Closing) : List Nat := (s.images ref ++ s.takenImages).map (·.id)

/-- Every image made is held, or lingers or was closed, once. -/
structure Balanced (regID : Int) (ref : Nat) (s : Closing) : Prop where
  registered : (∀ err, s.phase ≠ .returned err) → s.cc.Registered regID ref
  unregistered : ∀ err, s.phase = .returned err → ∀ sub ∈ s.cc.subs, sub.regID ≠ regID
  object : ∃ subscription, s.cc.subscriptions[ref]? = some subscription
  active : s.cc.driverActive = true
  settledNumbered : ∀ id, Resource.image id ∈ s.cc.settled → id < s.cc.nextID
  heldNumbered : ∀ id ∈ s.held ref, id < s.cc.nextID
  createdNumbered : ∀ id ∈ s.created, id < s.cc.nextID
  listed : ∀ id ∈ s.held ref, id ∈ s.created
  once : ∀ id ∈ s.created, (s.held ref).count id + s.cc.settled.count (.image id) = 1

theorem Balanced.of_ready (h : Ready regID ref s) : Balanced regID ref s := by
  obtain ⟨subscription, hobject, _, _, himages⟩ := h.open_
  have hheld : s.held ref = [] := by
    simp only [held, images, hobject, Option.elim_some, himages, takenImages, h.idle, List.append_nil, List.map_nil]
  refine ⟨fun _ => ⟨h.distinct, h.registered⟩, ?_, ⟨subscription, hobject⟩, h.active, h.numbered, ?_, ?_, ?_, ?_⟩
  · intro err hreturned
    exact nomatch h.idle.symm.trans hreturned
  · rw [hheld]
    nofun
  · rw [h.created]
    nofun
  · rw [hheld]
    nofun
  · rw [h.created]
    nofun

/-- Steps that only move images on. -/
theorem Balanced.of_moved (hs : Balanced regID ref s)
    (hregistered : (∀ err, t.phase ≠ .returned err) → t.cc.Registered regID ref)
    (hunregistered : ∀ err, t.phase = .returned err → ∀ sub ∈ t.cc.subs, sub.regID ≠ regID)
    (hobject : ∃ subscription, t.cc.subscriptions[ref]? = some subscription)
    (hactive : t.cc.driverActive = s.cc.driverActive) (hnext : t.cc.nextID = s.cc.nextID) (hcreated : t.created = s.created)
    (hheld : ∀ id ∈ t.held ref, id ∈ s.held ref)
    (hbalance : ∀ id, (t.held ref).count id + t.cc.settled.count (.image id) =
      (s.held ref).count id + s.cc.settled.count (.image id)) : Balanced regID ref t := by
  refine ⟨hregistered, hunregistered, hobject, hactive.trans hs.active, fun id hid => ?_, fun id hid => ?_,
    fun id hid => ?_, fun id hid => ?_, fun id hid => ?_⟩
  · rw [hnext]
    by_cases hbefore : Resource.image id ∈ s.cc.settled
    · exact hs.settledNumbered id hbefore
    · -- the image was held before
      have hcount := hbalance id
      rw [List.count_eq_zero.mpr hbefore] at hcount
      have hpos := List.count_pos_iff.mpr hid
      exact hs.heldNumbered id (List.count_pos_iff.mp (by omega))
  · rw [hnext]
    exact hs.heldNumbered id (hheld id hid)
  · rw [hnext]
    exact hs.createdNumbered id (hcreated ▸ hid)
  · rw [hcreated]
    exact hs.listed id (hheld id hid)
  · rw [hbalance id]
    exact hs.once id (hcreated ▸ hid)

theorem images_set {subscription subscription' : Subscription}
    (hobject : s.cc.subscriptions[ref]? = some subscription)
    (ht : t.cc.subscriptions = s.cc.subscriptions.set ref subscription') :
    t.cc.subscriptions[ref]? = some subscription' ∧ t.images ref = subscription'.images := by
  have hlength : ref < s.cc.subscriptions.length := (List.getElem?_eq_some_iff.mp hobject).1
  have hset : t.cc.subscriptions[ref]? = some subscription' := by
    rw [ht, List.getElem?_set_self hlength]
  exact ⟨hset, by simp only [images, hset, Option.elim_some]⟩

theorem images_eq (hobject : s.cc.subscriptions[ref]? = some subscription) :
    s.images ref = subscription.images := by
  simp only [images, hobject, Option.elim_some]

theorem toOption_map {α β : Type} {x : Except Stop α} {f : α → β} {b : β} (h : x.toOption.map f = some b) :
    ∃ a, x = .ok a ∧ f a = b := by
  cases x with
  | error e => cases h
  | ok a => exact ⟨a, rfl, Option.some.inj h⟩

theorem returned_or (s : Closing) : (∃ err, s.phase = .returned err) ∨ ∀ err, s.phase ≠ .returned err := by
  by_cases h : ∃ err, s.phase = .returned err
  · exact .inl h
  · exact .inr fun err herr => h ⟨err, herr⟩

/-- A new image is put into the list. -/
theorem Balanced.added {sessionID corrID : Int} {calls : List ImageCall}
    (hs : Balanced regID ref s) (hobject : s.cc.subscriptions[ref]? = some subscription)
    (hopen : ∀ err, s.phase ≠ .returned err) :
    Balanced regID ref { s with
      cc := { s.cc with
        nextID := s.cc.nextID + 1
        subscriptions := s.cc.subscriptions.set ref (ClientConductor.addImage subscription ⟨s.cc.nextID, sessionID, corrID⟩)
        imageCalls := calls }
      created := s.created ++ [s.cc.nextID] } := by
  generalize ht : ({ s with
    cc := { s.cc with
      nextID := s.cc.nextID + 1
      subscriptions := s.cc.subscriptions.set ref (ClientConductor.addImage subscription ⟨s.cc.nextID, sessionID, corrID⟩)
      imageCalls := calls }
    created := s.created ++ [s.cc.nextID] } : Closing) = t
  have hset := images_set (t := t) hobject (by rw [← ht])
  have hheld : (t.held ref).Perm (s.cc.nextID :: s.held ref) := by
    have htaken : t.takenImages = s.takenImages := by rw [← ht]; rfl
    simp only [held, hset.2, htaken, images_eq hobject, ClientConductor.addImage, ImageList.addImage, List.map_append, List.map_cons,
      List.map_nil, List.append_assoc]
    exact List.perm_middle
  have hsettled : t.cc.settled = s.cc.settled := by rw [← ht]; rfl
  have hnext : t.cc.nextID = s.cc.nextID + 1 := by rw [← ht]
  have hcreated : t.created = s.created ++ [s.cc.nextID] := by rw [← ht]
  have hregistered : t.cc.Registered regID ref := by
    rw [← ht]
    exact ⟨(hs.registered hopen).distinct, (hs.registered hopen).entry⟩
  have hactive : t.cc.driverActive = true := by
    rw [← ht]
    exact hs.active
  have hphase : t.phase = s.phase := by rw [← ht]
  clear ht
  refine ⟨fun _ => hregistered, fun err herr => absurd (hphase.symm.trans herr) (hopen err), ⟨_, hset.1⟩, hactive,
    fun id hid => ?_, fun id hid => ?_, fun id hid => ?_, fun id hid => ?_, fun id hid => ?_⟩
  · rw [hnext]
    exact Nat.lt_succ_of_lt (hs.settledNumbered id (hsettled ▸ hid))
  · rw [hnext]
    rcases List.mem_cons.mp (hheld.mem_iff.mp hid) with rfl | hold
    · exact Nat.lt_succ_self _
    · exact Nat.lt_succ_of_lt (hs.heldNumbered id hold)
  · rw [hnext]
    rcases List.mem_append.mp (hcreated ▸ hid) with hold | hnew
    · exact Nat.lt_succ_of_lt (hs.createdNumbered id hold)
    · exact List.mem_singleton.mp hnew ▸ Nat.lt_succ_self _
  · rw [hcreated]
    rcases List.mem_cons.mp (hheld.mem_iff.mp hid) with rfl | hold
    · exact List.mem_append_right _ (List.mem_singleton.mpr rfl)
    · exact List.mem_append_left _ (hs.listed id hold)
  · rw [hheld.count_eq, hsettled, List.count_cons]
    rcases List.mem_append.mp (hcreated ▸ hid) with hold | hnew
    · have hne : (s.cc.nextID == id) = false := beq_false_of_ne (Nat.ne_of_gt (hs.createdNumbered id hold))
      rw [hne]
      exact hs.once id hold
    · obtain rfl := List.mem_singleton.mp hnew
      have hfresh : (s.held ref).count s.cc.nextID = 0 :=
        List.count_eq_zero.mpr fun hmem => Nat.lt_irrefl _ (hs.heldNumbered _ hmem)
      have hunsettled : s.cc.settled.count (.image s.cc.nextID) = 0 :=
        List.count_eq_zero.mpr fun hmem => Nat.lt_irrefl _ (hs.settledNumbered _ hmem)
      rw [hfresh, hunsettled, beq_self_eq_true]
      rfl

/-- An image becomes available. -/
theorem Balanced.available {sessionID corrID : Int} (hs : Balanced regID ref s)
    (h : step regID ref s (.available sessionID corrID) = some t) :
    Balanced regID ref t ∧ ((∃ err, s.phase = .returned err) → t = s) := by
  obtain ⟨cc, hcc, rfl⟩ := toOption_map h
  rcases s.returned_or with ⟨err, hreturned⟩ | hopen
  · rw [ClientConductor.onAvailableImage_unregistered (hs.unregistered err hreturned)] at hcc
    cases hcc
    rw [if_pos rfl]
    exact ⟨hs, fun _ => rfl⟩
  · refine ⟨?_, fun ⟨err, herr⟩ => absurd herr (hopen err)⟩
    obtain ⟨subscription, hobject⟩ := hs.object
    obtain ⟨calls, hadded⟩ := ClientConductor.onAvailableImage_registered (hs.registered hopen) hobject sessionID corrID
    rw [hadded] at hcc
    cases hcc
    rw [if_neg (Nat.succ_ne_self _)]
    exact hs.added hobject hopen

/-- An image is withdrawn, and lingers. -/
theorem Balanced.unavailable {w : World} {corrID : Int} (hs : Balanced regID ref s)
    (h : step regID ref s (.unavailable w corrID) = some t) :
    Balanced regID ref t ∧ ((∃ err, s.phase = .returned err) → t = s) := by
  obtain ⟨cc, hcc, rfl⟩ := toOption_map h
  rcases s.returned_or with ⟨err, hreturned⟩ | hopen
  · rw [ClientConductor.onUnavailableImage_unregistered (hs.unregistered err hreturned)] at hcc
    cases hcc
    exact ⟨hs, fun _ => rfl⟩
  · refine ⟨?_, fun ⟨err, herr⟩ => absurd herr (hopen err)⟩
    obtain ⟨subscription, hobject⟩ := hs.object
    obtain ⟨time, calls, rfl, _⟩ := ClientConductor.onUnavailableImage_registered (hs.registered hopen) hobject hcc
    have hset := images_set (t := { s with cc := { s.cc with
      subscriptions := s.cc.subscriptions.set ref (ClientConductor.removeImage subscription corrID).2
      imageCalls := calls
      lingeringResources := s.cc.lingeringResources ++
        [⟨time, ClientConductor.resourceOf (ClientConductor.removeImage subscription corrID).1⟩] } }) hobject rfl
    have hregistered := hs.registered hopen
    refine hs.of_moved (fun _ => ⟨hregistered.distinct, hregistered.entry⟩) (fun err herr => absurd herr (hopen err))
      ⟨_, hset.1⟩ rfl rfl rfl ?_ ?_
    all_goals
      simp only [held, hset.2, images_eq hobject]
      rcases ClientConductor.removeImage_cases subscription corrID with hnone | ⟨image, images, hperm, hsome⟩
    · simp only [hnone]
      exact fun id hid => hid
    · simp only [hsome]
      intro id hid
      rw [List.map_append, List.mem_append] at hid ⊢
      refine hid.imp_left fun hmem => ?_
      exact (hperm.map (·.id)).mem_iff.mp (List.mem_cons_of_mem _ hmem)
    · intro id
      simp only [hnone, ClientConductor.resourceOf, ClientConductor.settled, List.map_append, List.map_cons, List.map_nil,
        List.count_append, List.count_cons, List.count_nil]
      rfl
    · intro id
      have hcount := (hperm.map (·.id)).count_eq id
      rw [List.map_cons, List.count_cons] at hcount
      simp only [hsome, ClientConductor.resourceOf, ClientConductor.settled, takenImages, List.map_append, List.map_cons, List.map_nil,
        List.count_append, List.count_cons, List.count_nil, ← hcount]
      by_cases hid : image.id = id
      · simp only [hid, beq_self_eq_true, ↓reduceIte]
        omega
      · have hne : (Resource.image image.id == Resource.image id) = false :=
          beq_false_of_ne fun heq => hid (Resource.image.inj heq)
        simp only [beq_false_of_ne hid, hne, Bool.false_eq_true, ↓reduceIte]
        omega

/-- Lingering resources are checked. -/
theorem Balanced.check {w : World} {now : Int} (hs : Balanced regID ref s)
    (h : step regID ref s (.check w now) = some t) :
    Balanced regID ref t ∧ t.phase = s.phase ∧ t.images ref = s.images ref := by
  obtain ⟨cc, hcc, rfl⟩ := toOption_map h
  have hchecked := ClientConductor.checkLingering_checked rfl hcc
  have himages : Closing.images ref { s with cc := cc } = s.images ref := by
    simp only [images, hchecked.subscriptions]
  have hheld : held ref { s with cc := cc } = s.held ref := by
    simp only [held, himages, takenImages]
  refine ⟨hs.of_moved (fun hopen => ?_) (fun err herr => ?_) ?_ hchecked.driverActive hchecked.nextID rfl ?_ ?_, rfl,
    himages⟩
  · have hregistered := hs.registered hopen
    refine ⟨?_, ?_⟩ <;> rw [hchecked.subs]
    · exact hregistered.distinct
    · exact hregistered.entry
  · rw [hchecked.subs]
    exact hs.unregistered err herr
  · rw [hchecked.subscriptions]
    exact hs.object
  · rw [hheld]
    exact fun id hid => hid
  · intro id
    have hsettled : cc.settled.count (.image id) = s.cc.settled.count (.image id) := hchecked.settled id
    rw [hheld, hsettled]

/-- The subscription is marked closed. -/
theorem Balanced.mark (hs : Balanced regID ref s) (h : step regID ref s .mark = some t) :
    Balanced regID ref t ∧ t.phase = .marked := by
  simp only [step] at h
  split at h
  next subscription hidle hobject =>
    split at h
    · cases h
    · cases h
      have hset := images_set (t := { s with
        cc := s.cc.markSubscriptionClosed ref subscription, phase := .marked }) hobject rfl
      have hheld : held ref { s with cc := s.cc.markSubscriptionClosed ref subscription, phase := .marked } =
          s.held ref := by
        simp only [held, hset.2, images_eq hobject, takenImages, hidle]
      have hregistered := hs.registered (by rw [hidle]; nofun)
      refine ⟨hs.of_moved (fun _ => ⟨hregistered.distinct, hregistered.entry⟩) nofun ⟨_, hset.1⟩ rfl rfl rfl ?_ ?_, rfl⟩
      · rw [hheld]
        exact fun id hid => hid
      · intro id
        rw [hheld]
        rfl
  next => cases h

/-- The images are taken from the list. -/
theorem Balanced.take (hs : Balanced regID ref s) (h : step regID ref s .take = some t) :
    Balanced regID ref t ∧ ∃ images, t.phase = .taken images := by
  simp only [step] at h
  split at h
  next hmarked =>
    obtain ⟨subscription, hobject⟩ := hs.object
    simp only [ClientConductor.emptyImages, hobject] at h
    cases h
    have hset := images_set (t := { s with
      cc := { s.cc with subscriptions := s.cc.subscriptions.set ref { subscription with images := [] } }
      phase := .taken subscription.images }) hobject rfl
    have hheld : held ref { s with
        cc := { s.cc with subscriptions := s.cc.subscriptions.set ref { subscription with images := [] } }
        phase := .taken subscription.images } = s.held ref := by
      simp only [held, hset.2, images_eq hobject, takenImages, hmarked, List.nil_append, List.append_nil]
    have hregistered := hs.registered (by rw [hmarked]; nofun)
    refine ⟨hs.of_moved (fun _ => ⟨hregistered.distinct, hregistered.entry⟩) nofun ⟨_, hset.1⟩ rfl rfl rfl ?_ ?_, _, rfl⟩
    · rw [hheld]
      exact fun id hid => hid
    · intro id
      rw [hheld]
      rfl
  next => cases h

/-- The images that were taken linger, and the registration is gone. The list is left as it is. -/
theorem Balanced.release {w : World} (hs : Balanced regID ref s)
    (htakes : w.takes (.removeSubscription regID) = true) (h : step regID ref s (.release w) = some t) :
    Balanced regID ref t ∧ t.phase = .returned none ∧ t.images ref = s.images ref := by
  simp only [step] at h
  split at h
  next taken htaken =>
    obtain ⟨⟨err, cc⟩, hcc, rfl⟩ := toOption_map h
    have hregistered := hs.registered (by rw [htaken]; nofun)
    obtain ⟨rfl, time, calls, subs, rfl, hgone⟩ :=
      ClientConductor.releaseSubscription_registered hregistered hs.active htakes hcc
    refine ⟨hs.of_moved (fun hopen => absurd rfl (hopen none)) (fun _ _ => hgone) hs.object rfl rfl rfl ?_ ?_, rfl, rfl⟩
    · intro id hid
      simp only [held, takenImages, htaken, List.append_nil, List.map_append, List.mem_append] at hid ⊢
      exact .inl hid
    · intro id
      have hcount : (taken.map fun image => Resource.image image.id).count (.image id) =
          (taken.map (·.id)).count id := by
        rw [← List.count_map_of_injective (taken.map (·.id)) Resource.image (fun _ _ => Resource.image.inj),
          List.map_map]
        rfl
      have himages : Closing.images ref { s with
          cc := { s.cc with
            commands := s.cc.commands ++ [.removeSubscription regID]
            imageCalls := calls
            lingeringResources := s.cc.lingeringResources ++ taken.map fun image => ⟨time, .image image.id⟩
            subs := subs }
          phase := .returned none } = s.images ref := rfl
      simp only [held, himages, takenImages, htaken, ClientConductor.settled, List.map_append, List.map_map, List.count_append,
        List.append_nil, Function.comp_def, hcount]
      omega
  next => cases h

/-! ## No image is left behind -/

/-- The driver takes the remove command. -/
def Succeeds (regID : Int) (_ : Closing) : Action → Prop
  | .release w => w.takes (.removeSubscription regID) = true
  | _ => True

/-- When `releaseSubscription` runs, the images that became available after the list was taken are withdrawn. -/
def Withdrawn (ref : Nat) (s : Closing) : Action → Prop
  | .release _ => s.images ref = []
  | _ => True

/-- Every image made for the subscription lingers or was closed, once, and so does any that is in its list. -/
structure Accounted (ref : Nat) (s : Closing) : Prop where
  once : ∀ id ∈ s.created, s.cc.settled.count (.image id) = 1
  listed : ∀ image ∈ s.images ref, Resource.image image.id ∈ s.cc.settled

theorem Balanced.step {a : Action} (hs : Balanced regID ref s) (hsucceeds : Succeeds regID s a)
    (h : step regID ref s a = some t) : Balanced regID ref t := by
  cases a with
  | available sessionID corrID => exact (hs.available h).1
  | unavailable w corrID => exact (hs.unavailable h).1
  | check w now => exact (hs.check h).1
  | mark => exact (hs.mark h).1
  | take => exact (hs.take h).1
  | release w => exact (hs.release hsucceeds h).1

/-- Once the `Close` has returned, the list stays as `releaseSubscription` left it. -/
theorem Balanced.images_of_returned {a : Action} (hs : Balanced regID ref s) (hsucceeds : Succeeds regID s a)
    (hwithdrawn : Withdrawn ref s a) (himages : ∀ err, s.phase = .returned err → s.images ref = [])
    (h : Closing.step regID ref s a = some t) (hreturned : t.phase = .returned err) :
    t.images ref = [] := by
  -- image events do not change the phase, and nothing at all once the `Close` has returned
  have hevent : t.phase = s.phase → ((∃ err, s.phase = .returned err) → t = s) → t.images ref = [] := by
    intro hphase hsame
    rw [hsame ⟨err, hphase.symm.trans hreturned⟩]
    exact himages err (hphase.symm.trans hreturned)
  cases a with
  | available sessionID corrID =>
    obtain ⟨cc, _, ht⟩ := toOption_map h
    exact hevent (by rw [← ht]) (hs.available h).2
  | unavailable w corrID =>
    obtain ⟨cc, _, ht⟩ := toOption_map h
    exact hevent (by rw [← ht]) (hs.unavailable h).2
  | check w now =>
    obtain ⟨_, hphase, hsame⟩ := hs.check h
    rw [hsame]
    exact himages err (hphase.symm.trans hreturned)
  | mark => exact nomatch (hs.mark h).2.symm.trans hreturned
  | take =>
    obtain ⟨images, htaken⟩ := (hs.take h).2
    exact nomatch htaken.symm.trans hreturned
  | release w => exact (hs.release hsucceeds h).2.2.trans hwithdrawn

/-- With the `Close` returned, nothing is left behind if and only if the list is empty. -/
theorem Balanced.accounted_iff (hs : Balanced regID ref s)
    (hreturned : s.phase = .returned err) : Accounted ref s ↔ s.images ref = [] := by
  have hheld : s.held ref = (s.images ref).map (·.id) := by
    simp only [held, takenImages, hreturned, List.append_nil]
  constructor
  · intro haccounted
    refine List.eq_nil_iff_forall_not_mem.mpr fun image himage => ?_
    have hmem : image.id ∈ s.held ref := by
      rw [hheld]
      exact List.mem_map_of_mem himage
    have honce := hs.once _ (hs.listed _ hmem)
    have hsettled := haccounted.once _ (hs.listed _ hmem)
    have hpos := List.count_pos_iff.mpr hmem
    omega
  · intro hempty
    refine ⟨fun id hid => ?_, fun image himage => ?_⟩
    · have honce := hs.once id hid
      rw [hheld, hempty, List.map_nil, List.count_nil] at honce
      omega
    · rw [hempty] at himage
      cases himage

theorem balanced_of_reachable (h : ((system regID ref).guard (Succeeds regID)).Reachable s) :
    Balanced regID ref s :=
  h.invariant (fun _ hs => .of_ready hs) fun _ _ _ hs hn => hs.step hn.1 hn.2

/-- In every run in which the images that arrive after the list was taken are withdrawn before the registration is
released, a `Close` that has returned leaves no image behind; and a release from any other state does. -/
theorem close_leaves_no_image :
    (∀ s, ((system regID ref).guard fun s a => Succeeds regID s a ∧ Withdrawn ref s a).Reachable s →
      ∀ err, s.phase = .returned err → Accounted ref s) ∧
    (∀ s a t, ((system regID ref).guard (Succeeds regID)).Reachable s → Succeeds regID s a → (system regID ref).next s a t →
      (∃ w, a = .release w) → (Accounted ref t ↔ Withdrawn ref s a)) := by
  constructor
  · intro s h err hreturned
    have hinvariant : Balanced regID ref s ∧ ∀ err, s.phase = .returned err → s.images ref = [] := by
      refine h.invariant (I := fun s => Balanced regID ref s ∧ ∀ err, s.phase = .returned err → s.images ref = [])
        (fun s hs => ⟨.of_ready hs, fun err herr => ?_⟩) fun s a t hs hn => ?_
      · have hready : Ready regID ref s := hs
        exact nomatch hready.idle.symm.trans herr
      · exact ⟨hs.1.step hn.1.1 hn.2, fun err => hs.1.images_of_returned hn.1.1 hn.1.2 hs.2 hn.2⟩
    exact (hinvariant.1.accounted_iff hreturned).mpr (hinvariant.2 err hreturned)
  · rintro s a t h hsucceeds hn ⟨w, rfl⟩
    obtain ⟨hbalanced, hreturned, himages⟩ := (balanced_of_reachable h).release hsucceeds hn
    rw [hbalanced.accounted_iff hreturned, himages]
    rfl

/-- Without an event in between, the steps are those of `Subscription.Close`. -/
theorem closeSubscription_steps {w : World} (hidle : s.phase = .idle)
    (hobject : s.cc.subscriptions[ref]? = some subscription) (hid : subscription.registrationID = regID)
    (hopen : subscription.isClosed = false) {cc : ClientConductor}
    (h : s.cc.closeSubscription w ref = .ok (err, cc)) :
    System.exec (step regID ref) s [.mark, .take, .release w] = some { s with cc := cc, phase := .returned err } := by
  have hlength : ref < s.cc.subscriptions.length := (List.getElem?_eq_some_iff.mp hobject).1
  subst hid
  simp only [ClientConductor.closeSubscription, hobject, hopen, Bool.false_eq_true, ↓reduceIte,
    ClientConductor.markSubscriptionClosed, ClientConductor.emptyImages, List.getElem?_set_self hlength] at h
  simp only [System.exec, step, hidle, hobject, hopen, Bool.false_eq_true, ↓reduceIte, Option.bind_some,
    ClientConductor.markSubscriptionClosed, ClientConductor.emptyImages, List.getElem?_set_self hlength, h]
  rfl

/-! ## Runs -/

instance (s : Closing) (a : Action) : Decidable (Withdrawn ref s a) :=
  match a with
  | .release _ => inferInstanceAs (Decidable (s.images ref = []))
  | .available .. | .unavailable .. | .check .. | .mark | .take => .isTrue trivial

/-- A conductor with one subscription, registered as 2, that is ready. -/
def readyOne : Closing where
  cc := { ClientConductor.init 1000 100 true with
    subs := [⟨2, 5, 10, 0, .registeredMediaDriver, "aeron:ipc", "", true, true, some 0⟩]
    subscriptions := [⟨"aeron:ipc", 2, 10, 8, [], false, true, true⟩] }
  phase := .idle
  created := []

theorem readyOne_ready : Ready 2 0 readyOne :=
  ⟨by decide, ⟨_, List.mem_singleton.mpr rfl, rfl, rfl⟩, ⟨_, rfl, rfl, rfl, rfl⟩, rfl, nofun, rfl, rfl⟩

instance (s : Closing) (a : Action) : Decidable (Succeeds regID s a) :=
  match a with
  | .release w => inferInstanceAs (Decidable (w.takes (.removeSubscription regID) = true))
  | .available .. | .unavailable .. | .check .. | .mark | .take => .isTrue trivial

/-- One image is there before the `Close`; another arrives while it is going on and is withdrawn. -/
theorem close_leaves_no_image_withdrawn :
    (∃ s, ((system 2 0).guard fun s a => Succeeds 2 s a ∧ Withdrawn 0 s a).Reachable s ∧
      s.phase = .returned none ∧ s.created = [0, 1] ∧ Accounted 0 s) ∧
    ∃ s t, ((system 2 0).guard (Succeeds 2)).Reachable s ∧ (system 2 0).next s (.release (ClientConductor.world true)) t ∧
      s.images 0 = [] ∧ (Accounted 0 t ↔ Withdrawn 0 s (.release (ClientConductor.world true))) := by
  constructor
  · obtain ⟨s, hs, hq⟩ := System.exists_reachable_guard (Ready 2 0) (step 2 0)
      (fun s a => Succeeds 2 s a ∧ Withdrawn 0 s a) readyOne_ready
      [.available 4 9, .mark, .take, .available 5 11, .unavailable (ClientConductor.world true) 11, .release (ClientConductor.world true)]
      (fun s => decide (s.phase = .returned none ∧ s.created = [0, 1])) (by decide +kernel)
    obtain ⟨hreturned, hcreated⟩ := of_decide_eq_true hq
    exact ⟨s, hs, hreturned, hcreated, close_leaves_no_image.1 s hs none hreturned⟩
  · obtain ⟨s, hs, hq⟩ := System.exists_reachable_guard (Ready 2 0) (step 2 0) (Succeeds 2) readyOne_ready
      [.available 4 9, .mark, .take]
      (fun s => decide (s.images 0 = [] ∧ (step 2 0 s (.release (ClientConductor.world true))).isSome = true)) (by decide +kernel)
    obtain ⟨himages, hsome⟩ := of_decide_eq_true hq
    obtain ⟨t, ht⟩ := Option.isSome_iff_exists.mp hsome
    exact ⟨s, t, hs, ht, himages, close_leaves_no_image.2 s _ t hs rfl ht ⟨_, rfl⟩⟩

/-- An image that arrives after the list was taken is left in the list of the closed subscription, and nothing that the
conductor is told about it later changes that. -/
theorem image_orphaned : ∃ s, ((system 2 0).guard (Succeeds 2)).Reachable s ∧ s.phase = .returned none ∧
    s.created = [0] ∧ s.images 0 = [⟨0, 4, 9⟩] ∧ s.cc.settled = [] ∧ ¬ Accounted 0 s := by
  obtain ⟨s, hs, hq⟩ := System.exists_reachable_guard (Ready 2 0) (step 2 0) (Succeeds 2) readyOne_ready
    [.mark, .take, .available 4 9, .release (ClientConductor.world true), .unavailable (ClientConductor.world true) 9]
    (fun s => decide (s.phase = .returned none ∧ s.created = [0] ∧ s.images 0 = [⟨0, 4, 9⟩] ∧ s.cc.settled = []))
    (by decide +kernel)
  obtain ⟨hreturned, hcreated, himages, hsettled⟩ := of_decide_eq_true hq
  refine ⟨s, hs, hreturned, hcreated, himages, hsettled, fun haccounted => ?_⟩
  have honce := haccounted.once 0 (by rw [hcreated]; exact List.mem_singleton.mpr rfl)
  rw [hsettled] at honce
  cases honce

end Closing

end AeronGo.Conductor
