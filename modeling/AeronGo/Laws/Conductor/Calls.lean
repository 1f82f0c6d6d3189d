import AeronGo.Conductor.Calls
import AeronGo.Laws.Conductor.Lingering
import AeronGo.Machine.Registry

/-!
# What every run of a conductor keeps

Also when the driver refuses commands, is found inactive or announces a subscription again: registration ids are
distinct, a registration refers to a subscription that exists, the log of a publication that is ready is mapped and
referred to once, and the channel holds no more than its capacity. That each object is registered, and each mapping
held once, is not kept by such runs and is not part of it: `Laws.Conductor.Operations` has it for calls that succeed.
-/

namespace AeronGo.Conductor.ClientConductor

open Machine Machine.Registry Atomic Driver

variable {w : World} {cc cc' : ClientConductor}

/-! ## Known ids -/

theorem isKnown_iff (cc : ClientConductor) (id : Int) :
    cc.isKnown id = true ↔ ∃ command ∈ cc.commands, registrationOf command = id := by
  simp [isKnown]

/-- An id that was asked for stays so. -/
theorem isKnown_append {id : Int} {commands : List Command} (h : cc'.commands = cc.commands ++ commands)
    (hid : cc.isKnown id = true) : cc'.isKnown id = true := by
  rw [isKnown_iff] at hid ⊢
  obtain ⟨command, hmem, heq⟩ := hid
  exact ⟨command, h ▸ List.mem_append_left _ hmem, heq⟩

/-! ## The registries -/

/-- A registered publication: its id was asked for, and once it is ready or handed out its log is mapped, with one
reference to the mapping. -/
structure PubListed (cc : ClientConductor) (pub : PublicationState) : Prop where
  known : cc.isKnown pub.regID = true
  mapped : pub.status = .registeredMediaDriver ∨ pub.publication.isSome → pub.buffers.isSome
  once : ∀ buffers, pub.buffers = some buffers → buffers.refCount = 1

/-- A registered subscription: its id was asked for, and the object it refers to exists. -/
structure SubListed (cc : ClientConductor) (sub : SubscriptionState) : Prop where
  known : cc.isKnown sub.regID = true
  refers : ∀ ref, sub.subscription = some ref → ref < cc.subscriptions.length

/-- The invariant. Rows of either registry have distinct ids, also those an error response has marked. -/
structure Listed (cc : ClientConductor) : Prop where
  pubs : Rows (·.regID) (PubListed cc) cc.pubs
  subs : Rows (·.regID) (SubListed cc) cc.subs
  capacity : cc.lingeringResources.length ≤ lingerCapacity

/-- Commands and subscriptions are only added. -/
structure Grows (a b : ClientConductor) : Prop where
  commands : ∃ commands, b.commands = a.commands ++ commands
  subscriptions : a.subscriptions.length ≤ b.subscriptions.length

/-- In particular, nothing is added. -/
theorem Grows.of_eq {a b : ClientConductor} (hcommands : b.commands = a.commands)
    (hlength : b.subscriptions.length = a.subscriptions.length) : Grows a b :=
  ⟨⟨[], by rw [hcommands, List.append_nil]⟩, Nat.le_of_eq hlength.symm⟩

/-- What the driver was sent is added behind the commands before it. -/
theorem Sends.grows {a b : ClientConductor} (h : Sends w a b) : Grows a b :=
  ⟨h.commands, Nat.le_of_eq h.subscriptions.symm⟩

theorem PubListed.grows (hgrows : Grows cc cc') {pub : PublicationState} (h : PubListed cc pub) : PubListed cc' pub := by
  obtain ⟨commands, hcommands⟩ := hgrows.commands
  exact ⟨isKnown_append hcommands h.known, h.mapped, h.once⟩

/-- References are indices, so an object added behind the others leaves them valid. -/
theorem SubListed.grows (hgrows : Grows cc cc') {sub : SubscriptionState} (h : SubListed cc sub) : SubListed cc' sub := by
  obtain ⟨commands, hcommands⟩ := hgrows.commands
  exact ⟨isKnown_append hcommands h.known, fun ref href => Nat.lt_of_lt_of_le (h.refers ref href) hgrows.subscriptions⟩

variable {command : Command} {err : Option String} {ref : Nat} {regID : Int}

/-- An add call is refused, or registers with its command. -/
theorem addWith_cases (register : ClientConductor → Except Stop ClientConductor) :
    (∃ err, cc.addWith w regID command register = .ok (.error err)) ∨ cc.addWith w regID command register = (do
      let cc ← register { cc with commands := cc.commands ++ [command] }
      return .ok (regID, cc)) := by
  unfold addWith
  cases cc.getDriverStatus with
  | some err => exact .inl ⟨err, rfl⟩
  | none =>
    rcases writeCommandToDriver_cases (w := w) cc command with ⟨_, hwrite⟩ | ⟨_, hwrite⟩
    · rw [hwrite]
      exact .inr rfl
    · rw [hwrite]
      exact .inl ⟨_, rfl⟩

namespace Listed

/-- The registrations of publications change. -/
theorem setPubs (h : Listed cc) (hgrows : Grows cc cc')
    (hpubs : Rows (·.regID) (PubListed cc') cc.pubs → Rows (·.regID) (PubListed cc') cc'.pubs)
    (hsubs : cc'.subs = cc.subs) (hcapacity : cc'.lingeringResources.length ≤ lingerCapacity) : Listed cc' :=
  ⟨hpubs (h.pubs.imp fun _ => .grows hgrows), hsubs ▸ h.subs.imp fun _ => .grows hgrows, hcapacity⟩

/-- The registrations of subscriptions change. -/
theorem setSubs (h : Listed cc) (hgrows : Grows cc cc') (hpubs : cc'.pubs = cc.pubs)
    (hsubs : Rows (·.regID) (SubListed cc') cc.subs → Rows (·.regID) (SubListed cc') cc'.subs)
    (hcapacity : cc'.lingeringResources.length ≤ lingerCapacity) : Listed cc' :=
  ⟨hpubs ▸ h.pubs.imp fun _ => .grows hgrows, hsubs (h.subs.imp fun _ => .grows hgrows), hcapacity⟩

/-- The registries are as they were. -/
theorem congr (h : Listed cc) (hgrows : Grows cc cc') (hpubs : cc'.pubs = cc.pubs) (hsubs : cc'.subs = cc.subs)
    (hcapacity : cc'.lingeringResources.length ≤ lingerCapacity) : Listed cc' :=
  h.setPubs hgrows (fun rows => hpubs ▸ rows) hsubs hcapacity

/-- Neither the registries nor the channel change: the flags, the objects and the errors are not part of it. -/
theorem untouched (h : Listed cc)
    (hsame : (cc'.pubs, cc'.subs, cc'.lingeringResources, cc'.commands, cc'.subscriptions.length) =
      (cc.pubs, cc.subs, cc.lingeringResources, cc.commands, cc.subscriptions.length)) : Listed cc' := by
  simp only [Prod.mk.injEq] at hsame
  obtain ⟨hpubs, hsubs, hlingering, hcommands, hlength⟩ := hsame
  exact h.congr (.of_eq hcommands hlength) hpubs hsubs (hlingering ▸ h.capacity)

/-- Commands, errors and lingering resources; the channel never takes more than it holds. -/
theorem sends (h : Listed cc) (hsends : Sends w cc cc') : Listed cc' :=
  h.congr hsends.grows hsends.pubs hsends.subs (hsends.capacity h.capacity)

/-- Fewer registrations, in any order, as swap-removal leaves them. -/
theorem removePubs (h : Listed cc) {rest : List PublicationState} (hrest : rest.Subperm cc.pubs) :
    Listed { cc with pubs := rest } :=
  h.setPubs (.of_eq rfl rfl) (·.subperm hrest) rfl h.capacity

/-- The same of subscriptions. -/
theorem removeSubs (h : Listed cc) {rest : List SubscriptionState} (hrest : rest.Subperm cc.subs) :
    Listed { cc with subs := rest } :=
  h.setSubs (.of_eq rfl rfl) rfl (·.subperm hrest) h.capacity

/-- The row goes only after its command was taken; otherwise the error is returned and the row stays. -/
theorem releasePublication (h : Listed cc)
    (hcc : cc.releasePublication w regID = .ok (err, cc')) : Listed cc' := by
  obtain ⟨_, rest, b, hsends, hrest, rfl⟩ := releasePublication_releases hcc
  exact (h.sends hsends).removePubs (hsends.pubs ▸ hrest)

/-- The same, with the images lingering. -/
theorem releaseSubscription (h : Listed cc) {images : List Image}
    (hcc : cc.releaseSubscription w regID images = .ok (err, cc')) : Listed cc' := by
  obtain ⟨_, rest, b, hsends, hrest, rfl⟩ := releaseSubscription_releases hcc
  exact (h.sends hsends).removeSubs (hsends.subs ▸ hrest)

/-! ### Closing -/

/-- `Publication.Close`. The second call finds the flag set and does nothing. -/
theorem closePublication (h : Listed cc)
    (hcc : cc.closePublication w ref = .ok (err, cc')) : Listed cc' := by
  unfold ClientConductor.closePublication at hcc
  split at hcc
  · cases hcc
  · split at hcc
    · cases hcc
      exact h
    · refine Listed.releasePublication ?_ hcc
      exact h.untouched rfl

/-- `Subscription.Close`: the flag is set and the list emptied before the driver is asked, so also where it refuses. -/
theorem closeSubscription (h : Listed cc)
    (hcc : cc.closeSubscription w ref = .ok (err, cc')) : Listed cc' := by
  unfold ClientConductor.closeSubscription at hcc
  split at hcc
  · cases hcc
  · split at hcc
    · cases hcc
      exact h
    · refine Listed.releaseSubscription ?_ hcc
      have hmarked : ∀ subscription, Listed (cc.markSubscriptionClosed ref subscription) := fun _ =>
        h.congr (.of_eq rfl (List.length_set ..)) rfl rfl h.capacity
      split
      · exact hmarked _
      · exact (hmarked _).congr (.of_eq rfl (List.length_set ..)) rfl rfl h.capacity

/-- `Counter.Close`. Counters have no row of their own in the invariant. -/
theorem closeCounter (h : Listed cc)
    (hcc : cc.closeCounter w ref = .ok (err, cc')) : Listed cc' := by
  unfold ClientConductor.closeCounter at hcc
  split at hcc
  · cases hcc
  · split at hcc
    · cases hcc
      exact h
    · unfold releaseCounter at hcc
      split at hcc
      · cases hcc
        exact h.untouched rfl
      · split at hcc
        · cases hcc
          exact h.untouched rfl
        · simp only [Except.ok.injEq] at hcc
          refine Listed.sends ?_ (.written (w := w) hcc)
          exact h.untouched rfl

/-- Without an error handler the code panics, and no state is left to speak of. -/
theorem onError (h : Listed cc) {err : String} (hcc : cc.onError err = .ok cc') : Listed cc' := by
  unfold ClientConductor.onError at hcc
  split at hcc
  · cases hcc
    exact h.untouched rfl
  · cases hcc

/-- What the loops of `Close` do with the error of one object. -/
theorem report {outcome : Outcome} (h : ∀ err cc, outcome = .ok (err, cc) → Listed cc)
    (hcc : ClientConductor.report outcome = .ok cc') : Listed cc' := by
  obtain ⟨⟨err, b⟩, hb, hrest⟩ := ok_of_bind hcc
  cases err with
  | none =>
    cases hrest
    exact h _ _ hb
  | some e => exact (h _ _ hb).onError hrest

/-- A loop keeps the invariant if its body does. -/
theorem foldlM {β : Type} {f : ClientConductor → β → Except Stop ClientConductor} {xs : List β}
    (hstep : ∀ x a b, Listed a → f a x = .ok b → Listed b) (h : Listed cc) (hcc : xs.foldlM f cc = .ok cc') :
    Listed cc' := by
  induction xs generalizing cc with
  | nil =>
    cases hcc
    exact h
  | cons x xs ih =>
    rw [List.foldlM_cons] at hcc
    obtain ⟨b, hb, hrest⟩ := ok_of_bind hcc
    exact ih (hstep x cc b h hb) hrest

/-- The three loops of `Close`, each over the registry as it is when the index is used. -/
theorem closeAllResources (h : Listed cc) (hcc : cc.closeAllResources w = .ok cc') : Listed cc' := by
  unfold ClientConductor.closeAllResources at hcc
  split at hcc
  · obtain ⟨a, ha, hcc⟩ := ok_of_bind hcc
    obtain ⟨b, hb, hcc⟩ := ok_of_bind hcc
    obtain ⟨c, hc, hcc⟩ := ok_of_bind hcc
    cases hcc
    have hlisted : Listed { cc with running := false } := h.untouched rfl
    have hpubs : Listed a := by
      refine foldlM (fun i a b ha hb => ?_) hlisted ha
      unfold closePublicationAt at hb
      split at hb
      · cases hb
        exact ha
      · exact report (fun _ _ => ha.closePublication) hb
    have hsubs : Listed b := by
      refine foldlM (fun i a b ha hb => ?_) (hpubs.removePubs (List.nil_subperm)) hb
      unfold closeSubscriptionAt at hb
      split at hb
      · cases hb
        exact ha
      · exact report (fun _ _ => ha.closeSubscription) hb
    have hcounters : Listed c := by
      refine foldlM (fun id a b ha hb => ?_) (hsubs.removeSubs (List.nil_subperm)) hc
      unfold closeCounterOf at hb
      split at hb
      · cases hb
        exact ha
      · exact report (fun _ _ => ha.closeCounter) hb
    exact hcounters.untouched rfl
  · cases hcc
    exact h

/-! ### Adding -/

/-- The id of a command is asked for from then on. -/
theorem known_append (regID : Int) (hcommand : registrationOf command = regID) :
    isKnown { cc with commands := cc.commands ++ [command] } regID = true := by
  simp [isKnown, hcommand]

/-- A new row under a new id, not yet ready. -/
theorem addPub (h : Listed cc) (pub : PublicationState) (hunknown : cc.isKnown pub.regID = false)
    (hcommand : registrationOf command = pub.regID) (hpub : pub.status = .awaitingMediaDriver ∧ pub.publication = none)
    (hbuffers : pub.buffers = none) :
    Listed { cc with commands := cc.commands ++ [command], pubs := cc.pubs ++ [pub] } := by
  refine h.setPubs ⟨⟨[command], rfl⟩, Nat.le_refl _⟩ (fun rows => rows.append (fun old hold heq => ?_)
    ⟨known_append _ hcommand, ?_, ?_⟩) rfl h.capacity
  · rw [← heq, (h.pubs.each old hold).known] at hunknown
    cases hunknown
  · rw [hpub.1, hpub.2]
    rintro (hstatus | hsome)
    · cases hstatus
    · cases hsome
  · rw [hbuffers]
    exact nofun

/-- The same of a subscription, which has no object yet. -/
theorem addSub (h : Listed cc) (sub : SubscriptionState) (hunknown : cc.isKnown sub.regID = false)
    (hcommand : registrationOf command = sub.regID) (hsub : sub.subscription = none) :
    Listed { cc with commands := cc.commands ++ [command], subs := cc.subs ++ [sub] } := by
  refine h.setSubs ⟨⟨[command], rfl⟩, Nat.le_refl _⟩ rfl (fun rows => rows.append (fun old hold heq => ?_)
    ⟨known_append _ hcommand, ?_⟩) h.capacity
  · rw [← heq, (h.subs.each old hold).known] at hunknown
    cases hunknown
  · rw [hsub]
    exact nofun

/-- An add call that returns has registered with its command, or changed nothing. -/
theorem asked_addWith {register : ClientConductor → Except Stop ClientConductor}
    (h : cc.asked regID (cc.addWith w regID command register) = some cc') : cc' = cc ∨
      cc.isKnown regID = false ∧ register { cc with commands := cc.commands ++ [command] } = .ok cc' := by
  unfold asked at h
  split at h
  · cases h
  next hnew =>
    rcases addWith_cases register with ⟨err, heq⟩ | heq <;> rw [heq] at h
    · cases h
      exact .inl rfl
    · cases hregister : register { cc with commands := cc.commands ++ [command] } with
      | error e =>
        rw [hregister] at h
        cases h
      | ok b =>
        rw [hregister] at h
        cases h
        exact .inr ⟨Bool.eq_false_of_not_eq_true hnew, rfl⟩

/-- After `Close` the map of counters is nil, and writing to it panics. -/
theorem registerCounter (h : Listed cc) (hcc : cc.registerCounter w regID = .ok cc') : Listed cc' := by
  unfold ClientConductor.registerCounter at hcc
  split at hcc
  · cases hcc
  · cases hcc
    exact h.untouched rfl

/-- Shared and exclusive publications differ in their command only. -/
theorem addPublication (h : Listed cc) {regID streamID : Int} {channel : String} (command : Command)
    (hcommand : registrationOf command = regID)
    (hcc : cc.asked regID (cc.addWith w regID command (registerPublication w channel regID streamID)) = some cc') :
    Listed cc' := by
  rcases asked_addWith hcc with rfl | ⟨hunknown, hregister⟩
  · exact h
  · cases hregister
    exact h.addPub (initPublication channel regID streamID (w.now regID)) hunknown hcommand ⟨rfl, rfl⟩ rfl

/-- A key or label that is too long is refused before the driver is asked. -/
theorem addCounter (h : Listed cc) {regID typeId keyLength labelLength : Int}
    (hcc : cc.asked regID (cc.addCounter w regID typeId keyLength labelLength) = some cc') : Listed cc' := by
  have hrefused : ∀ {r}, (∃ err : String, r = .ok (.error err)) → cc.asked regID r = some cc' → Listed cc' := by
    rintro _ ⟨err, rfl⟩ hcc
    unfold asked at hcc
    split at hcc
    · cases hcc
    · cases hcc
      exact h
  unfold ClientConductor.addCounter at hcc
  split at hcc
  · exact hrefused (by split <;> exact ⟨_, rfl⟩) hcc
  · split at hcc
    · exact hrefused (by split <;> exact ⟨_, rfl⟩) hcc
    · rcases asked_addWith hcc with rfl | ⟨_, hregister⟩
      · exact h
      · refine Listed.registerCounter ?_ hregister
        exact h.congr ⟨⟨_, rfl⟩, Nat.le_refl _⟩ rfl rfl h.capacity

/-! ### Finding and events -/

/-- The row found is handed out, so from now on its log must stay mapped. -/
theorem findPublication (h : Listed cc) (regID : Int) : Listed (cc.findPublication w regID).2.2 := by
  unfold ClientConductor.findPublication
  cases hfind : cc.pubs.find? (·.regID = regID) with
  | none => exact h
  | some pub =>
    have hpub := List.mem_of_find?_eq_some hfind
    have hid : pub.regID = regID := by simpa using List.find?_some hfind
    dsimp only
    split
    · exact h
    · split
      · exact h
      · rename_i hstatus
        refine h.setPubs (.of_eq rfl rfl) (fun rows => rows.map (fun p => ?_) fun p hp hlisted => ?_) rfl h.capacity
        · split <;> rfl
        · split
          next heq =>
            -- the registration that was found is the only one with the id
            have hsame : p = pub := List.inj_on_of_nodup_map h.pubs.distinct hp hpub (heq.trans hid.symm)
            exact ⟨hlisted.known, fun _ => hlisted.mapped (.inl (hsame ▸ hstatus)), hlisted.once⟩
          next => exact hlisted
      · exact h

/-- Subscriptions are made by the driver's answer; finding one changes nothing. -/
theorem findSubscription (h : Listed cc) (regID : Int) : Listed (cc.findSubscription w regID).2.2 := by
  unfold ClientConductor.findSubscription
  split
  · exact h
  · split <;> exact h

/-- Counters are a map of their own. -/
theorem setCounter (h : Listed cc) (regID : Int) (state : CounterState) : Listed (cc.setCounter regID state) :=
  h.untouched rfl

/-- A counter is made here, once the driver has announced it. -/
theorem findCounter (h : Listed cc) (regID : Int) (newCounterError : Option String) :
    Listed (cc.findCounter w regID newCounterError).2.2 := by
  unfold ClientConductor.findCounter
  split
  · exact h
  · split
    · exact h
    · split
      · exact h
      · split
        · exact h
        · exact h.untouched rfl
      · exact h

/-- The answer maps the log. Only the row with its id changes, and there is at most one. -/
theorem onNewPublication (h : Listed cc) {sessionID posLimitCounterID channelStatusIndicatorID : Int}
    {logFileName : String} {regID origRegID : Int}
    (hcc : cc.onNewPublication sessionID posLimitCounterID channelStatusIndicatorID logFileName regID origRegID = .ok cc') :
    Listed cc' := by
  obtain ⟨⟨pubs, b⟩, hupdate, hrest⟩ := ok_of_bind hcc
  cases hrest
  rcases updateEach_cases h.pubs.distinct hupdate with ⟨rfl, rfl⟩ | ⟨front, pub, pub', back, hsplit, hid, hpub, rfl⟩
  · exact h
  · cases hpub
    refine h.setPubs (.of_eq rfl rfl) (fun rows => ?_) rfl h.capacity
    rw [hsplit] at rows
    refine rows.replace rfl fun hold => ⟨hold.known, fun _ => rfl, fun buffers heq => ?_⟩
    cases heq
    rfl

/-- The answer makes the object, at the end of the list; a second answer makes another one. -/
theorem onSubscriptionReady (h : Listed cc) {correlationID channelStatusIndicatorID : Int}
    (hcc : cc.onSubscriptionReady correlationID channelStatusIndicatorID = .ok cc') : Listed cc' := by
  obtain ⟨⟨subs, b⟩, hupdate, hrest⟩ := ok_of_bind hcc
  cases hrest
  rcases updateEach_cases h.subs.distinct hupdate with ⟨rfl, rfl⟩ | ⟨front, sub, sub', back, hsplit, hid, hsub, rfl⟩
  · exact h
  · cases hsub
    refine h.setSubs ⟨⟨[], (List.append_nil _).symm⟩, ?_⟩ rfl (fun rows => ?_) h.capacity
    · rw [List.length_append]
      exact Nat.le_add_right _ _
    · rw [hsplit] at rows
      refine rows.replace rfl fun hold => ⟨hold.known, fun ref heq => ?_⟩
      cases heq
      rw [List.length_append]
      exact Nat.lt_succ_self _

/-- A counter that is awaited becomes ready; any other announcement is ignored. -/
theorem onAvailableCounter (h : Listed cc) (registrationId counterId : Int) :
    Listed (cc.onAvailableCounter registrationId counterId) := by
  unfold ClientConductor.onAvailableCounter
  split
  · exact h
  · split
    · exact h.setCounter _ _
    · exact h

/-- The image goes into the list of the object that the row refers to. -/
theorem imageAvailable (h : Listed cc) {sessionID corrID : Int} {sub sub' : SubscriptionState}
    (hcc : imageAvailable sessionID corrID sub cc = .ok (sub', cc')) : sub' = sub ∧ cc'.subs = cc.subs ∧ Listed cc' := by
  unfold ClientConductor.imageAvailable at hcc
  split at hcc
  · cases hcc
    exact ⟨rfl, rfl, h⟩
  · split at hcc
    · cases hcc
    · cases hcc
      exact ⟨rfl, rfl, h.congr (.of_eq rfl (List.length_set ..)) rfl rfl h.capacity⟩

/-- An image for a subscription that is not registered is ignored. -/
theorem onAvailableImage (h : Listed cc) {sessionID regID corrID : Int}
    (hcc : cc.onAvailableImage sessionID regID corrID = .ok cc') : Listed cc' := by
  obtain ⟨⟨subs, b⟩, hupdate, hrest⟩ := ok_of_bind hcc
  cases hrest
  rcases updateEach_cases h.subs.distinct hupdate with ⟨rfl, rfl⟩ | ⟨front, sub, sub', back, hsplit, hid, hsub, rfl⟩
  · exact h
  · obtain ⟨rfl, hsubs, hlisted⟩ := h.imageAvailable hsub
    rw [← hsplit, ← hsubs]
    exact hlisted

/-- The row is marked and kept. A publication that was handed out before keeps its mapping. -/
theorem onErrorResponse (h : Listed cc) (corrID errorCode : Int) (errorMessage : String) :
    Listed (cc.onErrorResponse corrID errorCode errorMessage) := by
  unfold ClientConductor.onErrorResponse
  split
  · exact h.setCounter _ _
  · split
    · refine h.setPubs (.of_eq rfl rfl) (fun rows => rows.map (fun pub => ?_) fun pub _ hlisted => ?_) rfl h.capacity
      · split <;> rfl
      · split
        · refine ⟨hlisted.known, ?_, hlisted.once⟩
          rintro (hstatus | hsome)
          · cases hstatus
          · exact hlisted.mapped (.inr hsome)
        · exact hlisted
    · refine h.setSubs (.of_eq rfl rfl) rfl (fun rows => rows.map (fun sub => ?_) fun sub _ hlisted => ?_) h.capacity
      · split <;> rfl
      · split
        · exact ⟨hlisted.known, hlisted.refers⟩
        · exact hlisted

/-! ### Runs -/

/-- A close call that returns, with an error or without. -/
theorem returned {outcome : Outcome} (h : ∀ err cc, outcome = .ok (err, cc) → Listed cc)
    (hcc : ClientConductor.returned outcome = some cc') : Listed cc' := by
  unfold ClientConductor.returned at hcc
  split at hcc
  · cases hcc
    exact h _ _ rfl
  · cases hcc

/-- One case for each call and each announcement of the driver. -/
theorem perform (h : Listed cc) {operation : Operation} (hcc : cc.perform w operation = some cc') : Listed cc' := by
  cases operation with
  | addPublication regID channel streamID =>
    exact h.addPublication (.addPublication regID channel streamID) rfl hcc
  | addExclusivePublication regID channel streamID =>
    exact h.addPublication (.addExclusivePublication regID channel streamID) rfl hcc
  | addSubscription regID channel streamID available unavailable =>
    rcases asked_addWith hcc with rfl | ⟨hunknown, hregister⟩
    · exact h
    · cases hregister
      exact h.addSub (initSubscription channel regID streamID (w.now regID) available unavailable) hunknown rfl rfl
  | addCounter regID typeId keyLength labelLength => exact h.addCounter hcc
  | findPublication regID =>
    cases hcc
    exact h.findPublication regID
  | findSubscription regID =>
    cases hcc
    exact h.findSubscription regID
  | findCounter regID newCounterError =>
    cases hcc
    exact h.findCounter regID newCounterError
  | closePublication ref => exact returned (fun _ _ => h.closePublication) hcc
  | closeSubscription ref => exact returned (fun _ _ => h.closeSubscription) hcc
  | closeCounter ref => exact returned (fun _ _ => h.closeCounter) hcc
  | newPublication sessionID posLimitCounterID channelStatusIndicatorID logFileName regID origRegID =>
    exact h.onNewPublication (ok_of_toOption hcc)
  | subscriptionReady correlationID channelStatusIndicatorID => exact h.onSubscriptionReady (ok_of_toOption hcc)
  | availableCounter registrationId counterId =>
    cases hcc
    exact h.onAvailableCounter registrationId counterId
  | availableImage sessionID subsRegID corrID => exact h.onAvailableImage (ok_of_toOption hcc)
  | unavailableImage corrID subscriptionRegistrationID => exact h.sends (onUnavailableImage_sends (ok_of_toOption hcc))
  | errorResponse corrID errorCode errorMessage =>
    cases hcc
    exact h.onErrorResponse corrID errorCode errorMessage
  | checkManagedResources now =>
    obtain ⟨entries, left, hperm, rfl⟩ := checkLingering_ok rfl (ok_of_toOption hcc)
    have hleft := (List.sublist_append_right entries left).length_le
    exact h.congr (.of_eq rfl rfl) rfl rfl (Nat.le_trans (hperm.length_eq ▸ hleft) h.capacity)

/-- And closing: what `Close` and a forced close leave behind is listed as well. -/
theorem call (h : Listed cc) {call : Call} (hcc : cc.call w call = some cc') : Listed cc' := by
  cases call with
  | operation operation => exact h.perform hcc
  | driverInactive =>
    cases hcc
    exact h.untouched rfl
  | closeAllResources => exact h.closeAllResources (ok_of_toOption hcc)
  | forceCloseResources =>
    have hclosed := ok_of_toOption hcc
    rw [forceCloseResources, forceClose_eq rfl] at hclosed
    obtain rfl := closing_ok hclosed
    exact h.congr (.of_eq rfl rfl) rfl rfl (Nat.zero_le _)

end Listed

/-- A call that succeeds is one that returns. -/
theorem perform_of_operate {operation : Operation} (h : cc.operate w operation = some cc') :
    cc.perform w operation = some cc' := by
  have hadded : ∀ {regID outcome}, cc.added regID outcome = some cc' → cc.asked regID outcome = some cc' := by
    intro regID outcome h
    unfold added at h
    unfold asked
    split at h
    · cases h
    next hnew =>
      rw [if_neg hnew]
      split at h <;> cases h
      rfl
  have hclosed : ∀ {outcome}, closed outcome = some cc' → returned outcome = some cc' := by
    intro outcome h
    unfold closed at h
    split at h <;> cases h
    rfl
  cases operation with
  | addPublication _ _ _ | addExclusivePublication _ _ _ | addSubscription _ _ _ _ _ | addCounter _ _ _ _ =>
    exact hadded h
  | closePublication _ | closeSubscription _ | closeCounter _ => exact hclosed h
  | subscriptionReady _ _ =>
    simp only [operate] at h
    split at h
    · cases h
    · exact h
  | _ => exact h

/-- A new conductor has no registrations. -/
theorem listed_init (driverTimeoutNs resourceLingerTimeoutNs : Int) (hasErrorHandler : Bool) :
    Listed (.init driverTimeoutNs resourceLingerTimeoutNs hasErrorHandler) :=
  ⟨.nil, .nil, Nat.zero_le _⟩

/-- Every reachable conductor is listed. -/
theorem listed_of_reachable {driverTimeoutNs resourceLingerTimeoutNs : Int} {hasErrorHandler : Bool}
    (h : (calls driverTimeoutNs resourceLingerTimeoutNs hasErrorHandler).Reachable cc) : Listed cc := by
  refine h.invariant (I := Listed) (fun s hs => ?_) fun s a t hs hstep => hs.call hstep
  rw [show s = _ from hs]
  exact listed_init _ _ _

end AeronGo.Conductor.ClientConductor
