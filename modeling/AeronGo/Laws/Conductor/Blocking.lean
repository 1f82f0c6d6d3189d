import AeronGo.Laws.Conductor.Sound

/-!
# Releasing may wait

The channel of lingering resources holds 1024 entries, and only the conductor receives from it. A release on the
conductor's goroutine or under its lock returns if and only if there is room for all that it sends.
-/

namespace AeronGo.Conductor.ClientConductor

open Machine Atomic Driver

variable {w : World} {cc cc' : ClientConductor}

/-- What follows a call and cannot fail does not matter for whether it returns. -/
theorem returns_bind {α β : Type} {x : Except Stop α} {f : α → Except Stop β} (hf : ∀ a, ∃ b, f a = .ok b) :
    (∃ b, x >>= f = .ok b) ↔ ∃ a, x = .ok a := by
  cases x with
  | error e => exact ⟨fun ⟨_, h⟩ => (nomatch h), fun ⟨_, h⟩ => (nomatch h)⟩
  | ok a => exact ⟨fun _ => ⟨a, rfl⟩, fun _ => hf a⟩

/-- A loop over registrations with distinct ids returns if the update of the one that matches does. -/
theorem updateEach_returns {α : Type} {key : α → Int} {id : Int}
    {update : α → ClientConductor → Except Stop (α × ClientConductor)} {entries : List α}
    (hnodup : (entries.map key).Nodup) :
    (∃ r, updateEach (fun x => decide (key x = id)) update entries cc = .ok r) ↔
      ∀ x ∈ entries, key x = id → ∃ r, update x cc = .ok r := by
  by_cases hany : ∃ x ∈ entries, key x = id
  · obtain ⟨x, hx, rfl⟩ := hany
    have honly : (∀ y ∈ entries, key y = key x → ∃ r, update y cc = .ok r) ↔ ∃ r, update x cc = .ok r := by
      refine ⟨fun h => h x hx rfl, fun h y hy hid => ?_⟩
      rw [List.inj_on_of_nodup_map hnodup hy hx hid]
      exact h
    obtain ⟨front, back, hsplit, hfront, hback⟩ := split_of_nodup hnodup hx
    rw [honly, hsplit, updateEach_one hfront (decide_eq_true rfl) hback]
    exact returns_bind fun a => ⟨_, rfl⟩
  · have hnone : ∀ x ∈ entries, key x ≠ id := fun x hx heq => hany ⟨x, hx, heq⟩
    rw [updateEach_none fun x hx => decide_eq_false (hnone x hx)]
    exact ⟨fun _ x hx heq => absurd heq (hnone x hx), fun _ => ⟨_, rfl⟩⟩

/-- So does a release, if the driver is active. -/
theorem releasing_returns {α : Type} {key : α → Int} {id : Int} {release : α → ClientConductor → Outcome}
    {entries : List α} {put : List α → ClientConductor → ClientConductor} (hnodup : (entries.map key).Nodup) :
    (∃ r, releasing (fun x => decide (key x = id)) release entries put cc = .ok r) ↔
      (cc.driverActive = true → ∀ x ∈ entries, key x = id → ∃ r, release x cc = .ok r) := by
  unfold releasing getDriverStatus
  cases hactive : cc.driverActive with
  | false => exact ⟨fun _ h => (nomatch h), fun _ => ⟨_, rfl⟩⟩
  | true =>
    simp only [↓reduceIte, forall_const]
    refine (returns_bind fun a => ⟨_, rfl⟩).trans ?_
    by_cases hany : ∃ x ∈ entries, key x = id
    · obtain ⟨x, hx, rfl⟩ := hany
      have honly : (∀ y ∈ entries, key y = key x → ∃ r, release y cc = .ok r) ↔ ∃ r, release x cc = .ok r := by
        refine ⟨fun h => h x hx rfl, fun h y hy hid => ?_⟩
        rw [List.inj_on_of_nodup_map hnodup hy hx hid]
        exact h
      obtain ⟨front, back, hsplit, hfront, hback⟩ := split_of_nodup hnodup hx
      rw [honly, hsplit, releaseEach_one hfront (decide_eq_true rfl) hback]
      refine returns_bind fun a => ?_
      obtain ⟨err, b⟩ := a
      cases err <;> exact ⟨_, rfl⟩
    · have hnone : ∀ x ∈ entries, key x ≠ id := fun x hx heq => hany ⟨x, hx, heq⟩
      rw [releaseEach_none fun x hx => decide_eq_false (hnone x hx)]
      exact ⟨fun _ x hx heq => absurd heq (hnone x hx), fun _ => ⟨_, rfl⟩⟩

/-! ## The three releases -/

theorem linger_returns {time : Int} {resource : Resource} :
    (∃ r, cc.linger time resource = .ok r) ↔ cc.lingeringResources.length < lingerCapacity := by
  unfold linger
  split
  next hroom => exact ⟨fun _ => hroom, fun _ => ⟨_, rfl⟩⟩
  next hfull => exact ⟨fun ⟨_, h⟩ => (nomatch h), fun h => absurd h hfull⟩

theorem onUnavailableImage_returns (h : Listed cc) (corrID regID : Int) :
    (∃ r, cc.onUnavailableImage w corrID regID = .ok r) ↔
      ((∃ sub ∈ cc.subs, sub.regID = regID ∧ sub.subscription.isSome) →
        cc.lingeringResources.length < lingerCapacity) := by
  refine (returns_bind fun a => ⟨_, rfl⟩).trans ((updateEach_returns h.subs.distinct).trans ?_)
  have hupdate : ∀ sub ∈ cc.subs, (∃ r, imageUnavailable w corrID sub cc = .ok r) ↔
      (sub.subscription.isSome → cc.lingeringResources.length < lingerCapacity) := by
    intro sub hsub
    unfold imageUnavailable
    cases href : sub.subscription with
    | none => exact ⟨fun _ h => (nomatch h), fun _ => ⟨_, rfl⟩⟩
    | some ref =>
      have hlt := (h.subs.each sub hsub).refers ref href
      simp only [List.getElem?_eq_getElem hlt]
      refine ((returns_bind fun a => ⟨_, rfl⟩).trans linger_returns).trans ?_
      exact ⟨fun hroom _ => hroom, fun hroom => hroom rfl⟩
  constructor
  · rintro hreturns ⟨sub, hsub, hid, hsome⟩
    exact (hupdate sub hsub).mp (hreturns sub hsub hid) hsome
  · intro hroom sub hsub hid
    exact (hupdate sub hsub).mpr fun hsome => hroom ⟨sub, hsub, hid, hsome⟩

theorem releaseSubscription_returns (h : Listed cc) (regID : Int) (images : List Image) :
    (∃ r, cc.releaseSubscription w regID images = .ok r) ↔
      (cc.driverActive = true → (∃ sub ∈ cc.subs, sub.regID = regID) → w.takes (.removeSubscription regID) = true →
        cc.lingeringResources.length + images.length ≤ lingerCapacity) := by
  rw [releaseSubscription_eq, releasing_returns h.subs.distinct]
  have hrelease : ∀ sub : SubscriptionState, sub.regID = regID →
      ((∃ r, releaseSubscriptionState w images sub cc = .ok r) ↔ (w.takes (.removeSubscription regID) = true →
        cc.lingeringResources.length + images.length ≤ lingerCapacity)) := by
    rintro sub rfl
    unfold releaseSubscriptionState
    rcases writeCommandToDriver_cases (w := w) cc (.removeSubscription sub.regID) with ⟨htakes, hwrite⟩ | ⟨htakes, hwrite⟩
    · rw [hwrite]
      refine (returns_bind fun a => ⟨_, rfl⟩).trans ?_
      have hcapacity : (ClientConductor.lingeringResources { cc with
          commands := cc.commands ++ [.removeSubscription sub.regID] }).length ≤ lingerCapacity := h.capacity
      rw [releaseImages_eq _ _ _ hcapacity]
      split
      next hroom => exact ⟨fun _ _ => hroom, fun _ => ⟨_, rfl⟩⟩
      next hfull => exact ⟨fun ⟨_, h⟩ => (nomatch h), fun h => absurd (h htakes) hfull⟩
    · rw [hwrite]
      exact ⟨fun _ h => absurd h (by rw [htakes]; nofun), fun _ => ⟨_, rfl⟩⟩
  constructor
  · rintro hreturns hactive ⟨sub, hsub, hid⟩
    exact (hrelease sub hid).mp (hreturns hactive sub hsub hid)
  · intro hroom hactive sub hsub hid
    exact (hrelease sub hid).mpr (hroom hactive ⟨sub, hsub, hid⟩)

/-- The registration that is released was handed out, if it is still there. -/
theorem releasePublication_returns (h : Listed cc) (regID : Int)
    (hfound : ∀ pub ∈ cc.pubs, pub.regID = regID → pub.publication.isSome) :
    (∃ r, cc.releasePublication w regID = .ok r) ↔
      (cc.driverActive = true → (∃ pub ∈ cc.pubs, pub.regID = regID) → w.takes (.removePublication regID) = true →
        cc.lingeringResources.length < lingerCapacity) := by
  rw [releasePublication_eq, releasing_returns h.pubs.distinct]
  have hrelease : ∀ pub ∈ cc.pubs, pub.regID = regID →
      ((∃ r, releasePublicationState w pub cc = .ok r) ↔ (w.takes (.removePublication regID) = true →
        cc.lingeringResources.length < lingerCapacity)) := by
    rintro pub hpub rfl
    obtain ⟨buffers, hbuffers⟩ := Option.isSome_iff_exists.mp ((h.pubs.each pub hpub).mapped (.inr (hfound pub hpub rfl)))
    have hlast : buffers.refCount - 1 = 0 := by rw [(h.pubs.each pub hpub).once buffers hbuffers]; rfl
    unfold releasePublicationState
    rcases writeCommandToDriver_cases (w := w) cc (.removePublication pub.regID) with ⟨htakes, hwrite⟩ | ⟨htakes, hwrite⟩
    · simp only [hwrite, hbuffers, if_pos hlast]
      refine ((returns_bind fun a => ⟨_, rfl⟩).trans linger_returns).trans ?_
      exact ⟨fun hroom _ => hroom, fun hroom => hroom htakes⟩
    · rw [hwrite]
      exact ⟨fun _ h => absurd h (by rw [htakes]; nofun), fun _ => ⟨_, rfl⟩⟩
  constructor
  · rintro hreturns hactive ⟨pub, hpub, hid⟩
    exact (hrelease pub hpub hid).mp (hreturns hactive pub hpub hid)
  · intro hroom hactive pub hpub hid
    exact (hrelease pub hpub hid).mpr (hroom hactive ⟨pub, hpub, hid⟩)

/-- In every state that a run reaches, the calls that send on the channel return if and only if it has room. -/
theorem releases_return_iff {driverTimeoutNs resourceLingerTimeoutNs : Int} {hasErrorHandler : Bool}
    (h : (calls driverTimeoutNs resourceLingerTimeoutNs hasErrorHandler).Reachable cc) (w : World) (regID : Int) :
    (∀ corrID, (∃ cc', cc.onUnavailableImage w corrID regID = .ok cc') ↔
      ((∃ sub ∈ cc.subs, sub.regID = regID ∧ sub.subscription.isSome) →
        cc.lingeringResources.length < lingerCapacity)) ∧
    (∀ images, (∃ r, cc.releaseSubscription w regID images = .ok r) ↔
      (cc.driverActive = true → (∃ sub ∈ cc.subs, sub.regID = regID) → w.takes (.removeSubscription regID) = true →
        cc.lingeringResources.length + images.length ≤ lingerCapacity)) ∧
    ((∀ pub ∈ cc.pubs, pub.regID = regID → pub.publication.isSome) →
      ((∃ r, cc.releasePublication w regID = .ok r) ↔
        (cc.driverActive = true → (∃ pub ∈ cc.pubs, pub.regID = regID) → w.takes (.removePublication regID) = true →
          cc.lingeringResources.length < lingerCapacity))) := by
  have hlisted := listed_of_reachable h
  exact ⟨fun corrID => onUnavailableImage_returns hlisted corrID regID,
    fun images => releaseSubscription_returns hlisted regID images, releasePublication_returns hlisted regID⟩

/-- A subscription and a publication are asked for, announced and found. -/
def inUse : List (World × Call) :=
  [.addSubscription 2 "aeron:ipc" 7 false false, .subscriptionReady 2 0, .addPublication 3 "aeron:ipc" 7,
    .newPublication 1 0 0 "log" 3 3, .findPublication 3, .availableImage 1 2 9].map fun operation =>
      (ClientConductor.world true, .operation operation)

theorem releases_return_iff_inUse : ∃ cc, (calls 1000 10 true).Reachable cc ∧
    (∃ cc', cc.onUnavailableImage (ClientConductor.world true) 9 2 = .ok cc') ∧
    (∃ r, cc.releaseSubscription (ClientConductor.world true) 2 [⟨0, 1, 9⟩] = .ok r) ∧
    ∃ r, cc.releasePublication (ClientConductor.world true) 3 = .ok r := by
  obtain ⟨cc, hcc, htest⟩ := System.exists_reachable (· = ClientConductor.init 1000 10 true)
    (fun cc (a : World × Call) => cc.call a.1 a.2) rfl inUse
    (fun cc => cc.lingeringResources.length = 0 ∧ ∀ pub ∈ cc.pubs, pub.regID = 3 → pub.publication.isSome)
    (by decide +kernel)
  obtain ⟨hempty, hfound⟩ := of_decide_eq_true htest
  obtain ⟨hunavailable, hsubscription, _⟩ := releases_return_iff hcc (ClientConductor.world true) 2
  refine ⟨cc, hcc, (hunavailable 9).mpr fun _ => ?_, (hsubscription [⟨0, 1, 9⟩]).mpr fun _ _ _ => ?_,
    ((releases_return_iff hcc (ClientConductor.world true) 3).2.2 hfound).mpr fun _ _ _ => ?_⟩
  · rw [hempty]
    decide
  · rw [hempty]
    decide
  · rw [hempty]
    decide

/-! ## A full channel -/

/-- A subscription that is ready. -/
def readySub : SubscriptionState :=
  { initSubscription "aeron:ipc" 2 7 5 false false with status := .registeredMediaDriver, subscription := some 0 }

/-- It has no image, `n` images linger, and `next` is the number of the next one. -/
def withoutImage (n next : Nat) : ClientConductor :=
  { ClientConductor.init 1000 10 true with
    subs := [readySub]
    subscriptions := [⟨"aeron:ipc", 2, 7, 0, [], false, false, false⟩]
    commands := [.addSubscription 2 "aeron:ipc" 7]
    nextID := next
    lingeringResources := (List.range n).map fun i => ⟨5, .image i⟩ }

/-- It has an image. -/
def withImage (n : Nat) : ClientConductor :=
  { withoutImage n (n + 1) with subscriptions := [⟨"aeron:ipc", 2, 7, 0, [⟨n, 1, 9⟩], false, false, false⟩] }

theorem withoutImage_available (n : Nat) : (withoutImage n n).onAvailableImage 1 2 9 = .ok (withImage n) := rfl

theorem withImage_unavailable (n : Nat) : (withImage n).onUnavailableImage (ClientConductor.world true) 9 2 =
    if n < lingerCapacity then .ok (withoutImage (n + 1) (n + 1)) else .error .unfinished := by
  have hlinger : (withoutImage n (n + 1)).linger 5 (.image n) =
      if n < lingerCapacity then .ok (withoutImage (n + 1) (n + 1)) else .error .unfinished := by
    rw [linger, withoutImage, List.length_map, List.length_range, withoutImage, List.range_succ, List.map_append]
    rfl
  have hupdate : imageUnavailable (ClientConductor.world true) 9 readySub (withImage n) = (do
      let cc ← (withoutImage n (n + 1)).linger 5 (.image n)
      return (readySub, cc)) := rfl
  have hnone : ∀ sub ∈ ([] : List SubscriptionState), decide (sub.regID = 2) = false := fun sub hsub =>
    absurd hsub List.not_mem_nil
  have hloop : updateEach (fun sub => decide (sub.regID = 2)) (imageUnavailable (ClientConductor.world true) 9)
      ([] ++ readySub :: []) (withImage n) =
        (imageUnavailable (ClientConductor.world true) 9 readySub (withImage n) >>= fun r => .ok ([] ++ r.1 :: [], r.2)) :=
    updateEach_one hnone rfl hnone (withImage n)
  rw [hupdate, hlinger] at hloop
  rw [onUnavailableImage]
  change (updateEach _ _ ([] ++ readySub :: []) _ >>= _) = _
  rw [hloop]
  split <;> rfl

theorem withoutImage_reachable {n : Nat} (hn : n ≤ lingerCapacity) : (calls 1000 10 true).Reachable (withoutImage n n) := by
  induction n with
  | zero =>
    have hexec : System.exec (fun cc (a : World × Call) => cc.call a.1 a.2) (.init 1000 10 true)
        [(ClientConductor.world true, .operation (.addSubscription 2 "aeron:ipc" 7 false false)),
          (ClientConductor.world true, .operation (.subscriptionReady 2 0))] = some (withoutImage 0 0) := rfl
    exact System.reachable_of_exec (.start rfl) hexec
  | succ n ih =>
    have hlt : n < lingerCapacity := hn
    have hbefore := ih (Nat.le_of_lt hlt)
    have hannounced : (calls 1000 10 true).Reachable (withImage n) := by
      refine hbefore.step (ClientConductor.world true, .operation (.availableImage 1 2 9)) ?_
      exact congrArg Except.toOption (withoutImage_available n)
    refine hannounced.step (ClientConductor.world true, .operation (.unavailableImage 9 2)) ?_
    have hwithdrawn := withImage_unavailable n
    rw [if_pos hlt] at hwithdrawn
    exact congrArg Except.toOption hwithdrawn

/-- When 1024 images have been lost and linger, the loss of another one waits for room, on the goroutine that alone
could make it. -/
theorem unavailable_waits : ∃ cc, (calls 1000 10 true).Reachable cc ∧
    cc.onUnavailableImage (ClientConductor.world true) 9 2 = .error .unfinished := by
  refine ⟨withImage lingerCapacity, ?_, ?_⟩
  · refine (withoutImage_reachable (Nat.le_refl _)).step (ClientConductor.world true, .operation (.availableImage 1 2 9)) ?_
    exact congrArg Except.toOption (withoutImage_available lingerCapacity)
  · rw [withImage_unavailable, if_neg (Nat.lt_irrefl _)]

end AeronGo.Conductor.ClientConductor
