import AeronGo.Laws.Conductor.Registry
import Mathlib.Data.List.Perm.Subperm

/-!
# What a release does

Whatever a release or the loss of an image returns, it has sent entries on the channel of lingering resources within
its capacity, perhaps written a command, and left the objects alone; the loop removes entries from its registry. A
release returns an error exactly if the driver is inactive or refuses a command that is needed. When the driver reads
the command, and when the channel is read, is not said here.
-/

namespace AeronGo.Conductor.ClientConductor

open Machine Atomic Driver

variable {w : World} {a b cc cc' : ClientConductor} {err : Option String} {images : List Image} {regID : Int}
  {sub : SubscriptionState} {command : Command}

/-! ## The loop of a release -/

section

variable {α : Type} {isMatch : α → Bool} {release : α → ClientConductor → Outcome}

/-- If the command is refused, the first entry that matches ends the loop. -/
theorem releaseEach_refused {err : String} (hrelease : ∀ x cc, isMatch x → release x cc = .ok (some err, cc))
    (is : List Nat) (entries : List α) (cc : ClientConductor) :
    releaseEach isMatch release is entries cc =
      .ok (if is.any (fun i => entries[i]?.any isMatch) then some err else none, entries, cc) := by
  induction is with
  | nil => rfl
  | cons i is ih =>
    unfold releaseEach
    cases hentry : entries[i]? with
    | none => simp only [List.any_cons, hentry, Option.any_none, Bool.false_or, ih]
    | some entry =>
      cases hmatch : isMatch entry with
      | false => simp only [List.any_cons, hentry, Option.any_some, hmatch, Bool.false_or, Bool.false_eq_true,
          ↓reduceIte, ih]
      | true =>
        simp only [List.any_cons, hentry, Option.any_some, hmatch, Bool.true_or, ↓reduceIte, hrelease entry cc hmatch]
        rfl

/-- What every release keeps, the loop keeps. -/
theorem releaseEach_keeps {R : ClientConductor → Option String → ClientConductor → Prop} (hrefl : ∀ cc, R cc none cc)
    (htrans : ∀ a b c err, R a none b → R b err c → R a err c)
    (hrelease : ∀ x a err b, isMatch x → release x a = .ok (err, b) → R a err b)
    {is : List Nat} {entries rest : List α}
    (h : releaseEach isMatch release is entries cc = .ok (err, rest, cc')) : R cc err cc' := by
  induction is generalizing entries cc with
  | nil =>
    cases h
    exact hrefl _
  | cons i is ih =>
    unfold releaseEach at h
    cases hentry : entries[i]? with
    | none =>
      simp only [hentry] at h
      exact ih h
    | some entry =>
      cases hmatch : isMatch entry with
      | false =>
        simp only [hentry, hmatch, Bool.false_eq_true, ↓reduceIte] at h
        exact ih h
      | true =>
        simp only [hentry, hmatch, ↓reduceIte] at h
        obtain ⟨⟨err', b⟩, hb, hrest⟩ := ok_of_bind h
        have hkept := hrelease entry cc err' b hmatch hb
        cases err' with
        | some e =>
          cases hrest
          exact hkept
        | none => exact htrans _ _ _ _ hkept (ih hrest)

/-- A release removes entries. -/
theorem releaseEach_subperm {is : List Nat} {entries rest : List α}
    (h : releaseEach isMatch release is entries cc = .ok (err, rest, cc')) : rest.Subperm entries := by
  induction is generalizing entries cc with
  | nil =>
    cases h
    exact .refl _
  | cons i is ih =>
    unfold releaseEach at h
    cases hentry : entries[i]? with
    | none =>
      simp only [hentry] at h
      exact ih h
    | some entry =>
      simp only [hentry] at h
      split at h
      · obtain ⟨⟨err', b⟩, hb, hrest⟩ := ok_of_bind h
        cases err' with
        | some e =>
          cases hrest
          exact .refl _
        | none =>
          refine (ih hrest).trans ?_
          exact (List.sublist_cons_self _ _).subperm.trans (Slice.cons_swapRemove_perm hentry).subperm
      · exact ih h

end

/-- The loop looks at every entry. -/
theorem any_range {α : Type} (p : α → Bool) (xs : List α) :
    (List.range xs.length).any (fun i => xs[i]?.any p) = xs.any p := by
  rw [Bool.eq_iff_iff, List.any_eq_true, List.any_eq_true]
  constructor
  · rintro ⟨i, _, hi⟩
    obtain ⟨x, hx, hp⟩ := (Option.any_eq_true _ _).mp hi
    exact ⟨x, List.mem_of_getElem? hx, hp⟩
  · rintro ⟨x, hx, hp⟩
    obtain ⟨i, hi, rfl⟩ := List.getElem_of_mem hx
    refine ⟨i, List.mem_range.mpr hi, ?_⟩
    rw [List.getElem?_eq_getElem hi]
    exact hp

/-- The ring takes the command, which is then the last one, or the caller gets the error and nothing has changed. -/
theorem writeCommandToDriver_cases (cc : ClientConductor) (command : Command) :
    (w.takes command = true ∧ cc.writeCommandToDriver w command =
      (none, { cc with commands := cc.commands ++ [command] })) ∨
    (w.takes command = false ∧ cc.writeCommandToDriver w command =
      (some "couldn't write command to driver", cc)) := by
  cases htakes : w.takes command with
  | true => exact .inl ⟨rfl, by simp only [writeCommandToDriver, htakes, ↓reduceIte]⟩
  | false => exact .inr ⟨rfl, by simp only [writeCommandToDriver, htakes, Bool.false_eq_true, ↓reduceIte]⟩

/-! ## What is sent -/

/-- Entries were sent at times that the calls read, and nothing was received. -/
structure Sends (w : World) (a b : ClientConductor) : Prop where
  queue : ∃ entries, b.lingeringResources = a.lingeringResources ++ entries ∧
    ∀ r ∈ entries, ∃ regID, r.lastTime = w.now regID
  capacity : a.lingeringResources.length ≤ lingerCapacity → b.lingeringResources.length ≤ lingerCapacity
  closed : b.closedResources = a.closedResources
  pubs : b.pubs = a.pubs
  subs : b.subs = a.subs
  subscriptions : b.subscriptions.length = a.subscriptions.length
  commands : ∃ commands, b.commands = a.commands ++ commands

namespace Sends

variable {c : ClientConductor}

/-- Only a command, the calls of handlers and the objects may differ. -/
theorem of_eq (hqueue : b.lingeringResources = a.lingeringResources) (hclosed : b.closedResources = a.closedResources)
    (hpubs : b.pubs = a.pubs) (hsubs : b.subs = a.subs) (hlength : b.subscriptions.length = a.subscriptions.length)
    {commands : List Command} (hcommands : b.commands = a.commands ++ commands) : Sends w a b :=
  ⟨⟨[], by rw [hqueue, List.append_nil], nofun⟩, fun h => hqueue ▸ h, hclosed, hpubs, hsubs, hlength, commands, hcommands⟩

/-- Nothing was sent. -/
theorem refl (a : ClientConductor) : Sends w a a := of_eq rfl rfl rfl rfl rfl (List.append_nil _).symm

/-- What a second call sent comes behind what the first one did. -/
theorem trans (hab : Sends w a b) (hbc : Sends w b c) : Sends w a c := by
  obtain ⟨xs, hxs, htimes⟩ := hab.queue
  obtain ⟨ys, hys, htimes'⟩ := hbc.queue
  obtain ⟨sent, hsent⟩ := hab.commands
  obtain ⟨sent', hsent'⟩ := hbc.commands
  refine ⟨⟨xs ++ ys, by rw [hys, hxs, List.append_assoc], fun r hr => ?_⟩, fun h => hbc.capacity (hab.capacity h),
    hbc.closed.trans hab.closed, hbc.pubs.trans hab.pubs, hbc.subs.trans hab.subs,
    hbc.subscriptions.trans hab.subscriptions, sent ++ sent', by rw [hsent', hsent, List.append_assoc]⟩
  exact (List.mem_append.mp hr).elim (htimes r) (htimes' r)

/-- One entry, if there is room for it; a full channel blocks, and then there is no result. -/
theorem linger {resource : Resource} (h : a.linger (w.now regID) resource = .ok b) : Sends w a b := by
  obtain ⟨rfl, hroom⟩ := linger_ok h
  refine ⟨⟨_, rfl, fun r hr => ⟨regID, by rw [List.mem_singleton.mp hr]⟩⟩, fun _ => ?_, rfl, rfl, rfl, rfl, [],
    (List.append_nil _).symm⟩
  rw [List.length_append]
  exact hroom

/-- A command, taken or refused, is not an entry. -/
theorem written {command : Command} (h : a.writeCommandToDriver w command = (err, b)) :
    Sends w a b := by
  rcases writeCommandToDriver_cases (w := w) a command with ⟨_, hwrite⟩ | ⟨_, hwrite⟩
  · rw [hwrite] at h
    cases h
    exact of_eq rfl rfl rfl rfl rfl rfl
  · rw [hwrite] at h
    cases h
    exact refl _

end Sends

/-! ## What a release leaves alone -/

/-- The objects that the client holds. A release is about their registrations; only `Close` of an object changes it. -/
structure SameObjects (a b : ClientConductor) : Prop where
  publications : b.publications = a.publications
  subscriptions : b.subscriptions = a.subscriptions
  counterObjects : b.counterObjects = a.counterObjects

/-- Nothing changed. -/
theorem SameObjects.refl (a : ClientConductor) : SameObjects a a := ⟨rfl, rfl, rfl⟩

/-- Two releases in turn. -/
theorem SameObjects.trans {c : ClientConductor} (hab : SameObjects a b) (hbc : SameObjects b c) : SameObjects a c :=
  ⟨hbc.publications.trans hab.publications, hbc.subscriptions.trans hab.subscriptions,
    hbc.counterObjects.trans hab.counterObjects⟩

/-- The body of a release. An error is returned only if the command was refused. -/
structure Releases (w : World) (command : Command) (a : ClientConductor) (err : Option String) (b : ClientConductor) :
    Prop where
  sends : Sends w a b
  objects : SameObjects a b
  refused : err.isSome → w.takes command = false

namespace Releases

/-- An entry that does not match is passed over. -/
theorem refl (command : Command) (a : ClientConductor) : Releases w command a none a := ⟨.refl a, .refl a, nofun⟩

/-- The loop goes on only after a body without an error, so the last error is the one returned. -/
theorem trans {c : ClientConductor} {err' : Option String} (hab : Releases w command a err b)
    (hbc : Releases w command b err' c) : Releases w command a err' c :=
  ⟨hab.sends.trans hbc.sends, hab.objects.trans hbc.objects, hbc.refused⟩

/-- Lingering comes after the command, and returns no error. -/
theorem linger {resource : Resource} (h : a.linger (w.now regID) resource = .ok b) : Releases w command a none b := by
  obtain ⟨rfl, _⟩ := linger_ok h
  exact ⟨.linger h, ⟨rfl, rfl, rfl⟩, nofun⟩

/-- The command was taken. -/
theorem written (command : Command) (a : ClientConductor) :
    Releases w command a none { a with commands := a.commands ++ [command] } :=
  ⟨.of_eq rfl rfl rfl rfl rfl rfl, ⟨rfl, rfl, rfl⟩, nofun⟩

/-- A refused command ends the body before anything lingers. -/
theorem of_refused (h : w.takes command = false) : Releases w command a err a := ⟨.refl a, .refl a, fun _ => h⟩

end Releases

/-- The body for a publication: its log lingers if this was the only reference to it. -/
theorem releasePublicationState_releases {pub : PublicationState}
    (h : releasePublicationState w pub a = .ok (err, b)) : Releases w (.removePublication pub.regID) a err b := by
  unfold releasePublicationState at h
  rcases writeCommandToDriver_cases (w := w) a (.removePublication pub.regID) with ⟨_, hwrite⟩ | ⟨hrefused, hwrite⟩
  · simp only [hwrite] at h
    split at h
    · cases h
    · split at h
      · obtain ⟨c, hc, hrest⟩ := ok_of_bind h
        cases hrest
        exact (Releases.written _ a).trans (.linger hc)
      · cases h
        exact .written _ a
  · simp only [hwrite] at h
    cases h
    exact .of_refused hrefused

/-- The loop over the images sends one entry for each, and calls the handler if there is one. -/
theorem releaseImages_releases {hasHandler : Bool} (h : releaseImages w sub hasHandler images a = .ok b) :
    Releases w command a none b := by
  induction images generalizing a with
  | nil =>
    cases h
    exact .refl command _
  | cons image images ih =>
    unfold releaseImages at h
    obtain ⟨c, hc, hrest⟩ := ok_of_bind h
    have hcalled : Releases w command a none
        (if hasHandler then { a with imageCalls := a.imageCalls ++ [.unavailable sub.regID (some image)] } else a) := by
      split
      · exact ⟨.of_eq rfl rfl rfl rfl rfl (List.append_nil _).symm, ⟨rfl, rfl, rfl⟩, by simp⟩
      · exact .refl command a
    exact hcalled.trans ((Releases.linger hc).trans (ih hrest))

/-- The body for a subscription: its command, then its images. -/
theorem releaseSubscriptionState_releases (h : releaseSubscriptionState w images sub a = .ok (err, b)) :
    Releases w (.removeSubscription sub.regID) a err b := by
  unfold releaseSubscriptionState at h
  rcases writeCommandToDriver_cases (w := w) a (.removeSubscription sub.regID) with ⟨_, hwrite⟩ | ⟨hrefused, hwrite⟩
  · simp only [hwrite] at h
    obtain ⟨c, hc, hrest⟩ := ok_of_bind h
    cases hrest
    exact (Releases.written _ a).trans (releaseImages_releases hc)
  · simp only [hwrite] at h
    cases h
    exact .of_refused hrefused

/-- What `releasePublication` and `releaseSubscription` share. -/
def releasing {α : Type} (isMatch : α → Bool) (release : α → ClientConductor → Outcome) (entries : List α)
    (put : List α → ClientConductor → ClientConductor) (cc : ClientConductor) : Outcome :=
  match cc.getDriverStatus with
  | some err => .ok (some err, cc)
  | none => do
    let (err, rest, cc) ← releaseEach isMatch release (List.range entries.length) entries cc
    return (err, put rest cc)

/-- A release fails if and only if the driver is inactive or refuses a command that is needed. -/
def Refuses (w : World) (command : Command) (isRegistered : Bool) (cc : ClientConductor) : Prop :=
  cc.driverActive = false ∨ (isRegistered = true ∧ w.takes command = false)

section

variable {α : Type} {isMatch : α → Bool} {release : α → ClientConductor → Outcome} {entries : List α}
  {put : List α → ClientConductor → ClientConductor}

/-- If the driver is inactive or refuses the command, the caller is told so. -/
theorem releasing_refused
    (hrefused : w.takes command = false → ∀ x cc, isMatch x →
      release x cc = .ok (some "couldn't write command to driver", cc)) (h : Refuses w command (entries.any isMatch) cc) :
    ∃ err cc', releasing isMatch release entries put cc = .ok (some err, cc') := by
  cases hactive : cc.driverActive with
  | false =>
    refine ⟨"driver is inactive", cc, ?_⟩
    simp only [releasing, getDriverStatus, hactive, Bool.false_eq_true, ↓reduceIte]
  | true =>
    obtain ⟨hany, htakes⟩ := h.resolve_left (by simp [hactive])
    refine ⟨"couldn't write command to driver", put entries cc, ?_⟩
    simp only [releasing, getDriverStatus, hactive, ↓reduceIte, releaseEach_refused (hrefused htakes), any_range, hany]
    rfl

/-- A release leaves the objects alone, fails only if it is refused, and removes entries of its registry. -/
theorem releasing_releases
    (hrefused : w.takes command = false → ∀ x cc, isMatch x →
      release x cc = .ok (some "couldn't write command to driver", cc))
    (hrelease : ∀ x a err b, isMatch x → release x a = .ok (err, b) → Releases w command a err b)
    (hput : ∀ rest a, SameObjects a (put rest a)) (hsame : put entries cc = cc)
    (h : releasing isMatch release entries put cc = .ok (err, cc')) :
    (SameObjects cc cc' ∧ (err.isSome → Refuses w command (entries.any isMatch) cc)) ∧
      ∃ rest b, Sends w cc b ∧ rest.Subperm entries ∧ cc' = put rest b := by
  cases hactive : cc.driverActive with
  | false =>
    simp only [releasing, getDriverStatus, hactive, Bool.false_eq_true, ↓reduceIte] at h
    cases h
    exact ⟨⟨.refl cc, fun _ => .inl hactive⟩, entries, cc, .refl cc, .refl _, hsame.symm⟩
  | true =>
    simp only [releasing, getDriverStatus, hactive, ↓reduceIte] at h
    obtain ⟨⟨err', rest, b⟩, hloop, hrest⟩ := ok_of_bind h
    cases hrest
    have hkept := releaseEach_keeps (R := Releases w command) (Releases.refl command) (fun _ _ _ _ => Releases.trans)
      hrelease hloop
    refine ⟨⟨hkept.objects.trans (hput rest b), fun hsome => ?_⟩, rest, b, hkept.sends, releaseEach_subperm hloop, rfl⟩
    have htakes := hkept.refused hsome
    rw [releaseEach_refused (hrefused htakes), any_range] at hloop
    cases hany : entries.any isMatch with
    | true => exact .inr ⟨rfl, htakes⟩
    | false =>
      rw [hany] at hloop
      cases hloop
      cases hsome

end

/-- Over the registry of publications. -/
theorem releasePublication_eq (cc : ClientConductor) (regID : Int) :
    cc.releasePublication w regID = releasing (fun pub => pub.regID = regID) (releasePublicationState w) cc.pubs
      (fun pubs cc => { cc with pubs := pubs }) cc := rfl

/-- And over that of subscriptions. -/
theorem releaseSubscription_eq (cc : ClientConductor) (regID : Int) (images : List Image) :
    cc.releaseSubscription w regID images = releasing (fun sub => sub.regID = regID)
      (releaseSubscriptionState w images) cc.subs (fun subs cc => { cc with subs := subs }) cc := rfl

/-- The error is that of the write, and the conductor is as it was. -/
theorem releasePublicationState_refused {pub : PublicationState} (cc : ClientConductor)
    (h : w.takes (.removePublication pub.regID) = false) :
    releasePublicationState w pub cc = .ok (some "couldn't write command to driver", cc) := by
  simp only [releasePublicationState, writeCommandToDriver, h, Bool.false_eq_true, ↓reduceIte]

/-- The same of a subscription: its images are then neither announced nor lingering. -/
theorem releaseSubscriptionState_refused (cc : ClientConductor)
    (h : w.takes (.removeSubscription sub.regID) = false) :
    releaseSubscriptionState w images sub cc = .ok (some "couldn't write command to driver", cc) := by
  simp only [releaseSubscriptionState, writeCommandToDriver, h, Bool.false_eq_true, ↓reduceIte]

/-- A publication that is registered is not released against the driver. -/
theorem releasePublication_refused
    (h : Refuses w (.removePublication regID) (cc.pubs.any (·.regID = regID)) cc) :
    ∃ err cc', cc.releasePublication w regID = .ok (some err, cc') := by
  rw [releasePublication_eq]
  refine releasing_refused (fun htakes pub cc hpub => ?_) h
  exact releasePublicationState_refused cc (of_decide_eq_true hpub ▸ htakes)

/-- What `ReleasePublication` can have done when it returns, with an error or without. -/
theorem releasePublication_releases (h : cc.releasePublication w regID = .ok (err, cc')) :
    (SameObjects cc cc' ∧
      (err.isSome → Refuses w (.removePublication regID) (cc.pubs.any (·.regID = regID)) cc)) ∧
      ∃ rest b, Sends w cc b ∧ rest.Subperm cc.pubs ∧ cc' = { b with pubs := rest } := by
  rw [releasePublication_eq] at h
  refine releasing_releases (fun htakes pub cc hpub => ?_) (fun pub a err b hpub hb => ?_)
    (fun _ _ => ⟨rfl, rfl, rfl⟩) rfl h
  · exact releasePublicationState_refused cc (of_decide_eq_true hpub ▸ htakes)
  · exact of_decide_eq_true hpub ▸ releasePublicationState_releases hb

/-- A subscription that is registered is not released against the driver. -/
theorem releaseSubscription_refused
    (h : Refuses w (.removeSubscription regID) (cc.subs.any (·.regID = regID)) cc) :
    ∃ err cc', cc.releaseSubscription w regID images = .ok (some err, cc') := by
  rw [releaseSubscription_eq]
  refine releasing_refused (fun htakes sub cc hsub => ?_) h
  exact releaseSubscriptionState_refused cc (of_decide_eq_true hsub ▸ htakes)

/-- What `ReleaseSubscription` can have done when it returns, with an error or without. -/
theorem releaseSubscription_releases (h : cc.releaseSubscription w regID images = .ok (err, cc')) :
    (SameObjects cc cc' ∧
      (err.isSome → Refuses w (.removeSubscription regID) (cc.subs.any (·.regID = regID)) cc)) ∧
      ∃ rest b, Sends w cc b ∧ rest.Subperm cc.subs ∧ cc' = { b with subs := rest } := by
  rw [releaseSubscription_eq] at h
  refine releasing_releases (fun htakes sub cc hsub => ?_) (fun sub a err b hsub hb => ?_)
    (fun _ _ => ⟨rfl, rfl, rfl⟩) rfl h
  · exact releaseSubscriptionState_refused cc (of_decide_eq_true hsub ▸ htakes)
  · exact of_decide_eq_true hsub ▸ releaseSubscriptionState_releases hb

/-! ## The loss of an image -/

/-- The image leaves the list of its subscription and lingers; one that is not in the list lingers as nil. -/
theorem imageUnavailable_sends {corrID : Int} {sub' : SubscriptionState}
    (h : imageUnavailable w corrID sub a = .ok (sub', b)) : sub' = sub ∧ Sends w a b := by
  unfold imageUnavailable at h
  split at h
  · cases h
    exact ⟨rfl, .refl _⟩
  · split at h
    · cases h
    · obtain ⟨c, hc, hrest⟩ := ok_of_bind h
      cases hrest
      refine ⟨rfl, Sends.trans ?_ (.linger hc)⟩
      exact .of_eq rfl rfl rfl rfl (List.length_set ..) (List.append_nil _).symm

/-- What every update keeps, the loop of an event keeps. -/
theorem updateEach_keeps {α : Type} {isMatch : α → Bool} {R : ClientConductor → ClientConductor → Prop}
    {update : α → ClientConductor → Except Stop (α × ClientConductor)} (hrefl : ∀ cc, R cc cc)
    (htrans : ∀ a b c, R a b → R b c → R a c) (hupdate : ∀ x x' a b, update x a = .ok (x', b) → x' = x ∧ R a b)
    {entries entries' : List α} (h : updateEach isMatch update entries cc = .ok (entries', cc')) :
    entries' = entries ∧ R cc cc' := by
  induction entries generalizing cc entries' with
  | nil =>
    cases h
    exact ⟨rfl, hrefl _⟩
  | cons x xs ih =>
    unfold updateEach at h
    split at h
    · obtain ⟨⟨x', b⟩, hx, hrest⟩ := ok_of_bind h
      obtain ⟨⟨xs', c⟩, hxs, hlast⟩ := ok_of_bind hrest
      cases hlast
      obtain ⟨rfl, hb⟩ := hupdate x x' cc b hx
      obtain ⟨rfl, hc⟩ := ih hxs
      exact ⟨rfl, htrans _ _ _ hb hc⟩
    · obtain ⟨⟨xs', c⟩, hxs, hlast⟩ := ok_of_bind h
      cases hlast
      obtain ⟨rfl, hc⟩ := ih hxs
      exact ⟨rfl, hc⟩

/-- The loss of an image sends what the matching registrations do, and changes no registration. -/
theorem onUnavailableImage_sends {corrID : Int} (h : cc.onUnavailableImage w corrID regID = .ok cc') :
    Sends w cc cc' := by
  obtain ⟨⟨subs, b⟩, hupdate, hrest⟩ := ok_of_bind h
  cases hrest
  obtain ⟨rfl, hsends⟩ := updateEach_keeps (R := Sends w) .refl (fun _ _ _ => .trans)
    (fun _ _ _ _ => imageUnavailable_sends) hupdate
  rw [← hsends.subs]
  exact hsends

end AeronGo.Conductor.ClientConductor
