import AeronGo.Conductor.Events
import AeronGo.Laws.Atomic.Buffer

/-!
# One registration among many

The loops of the conductor over its registrations, when one entry matches and when none does: an event updates
that entry in place, and a release removes it.
-/

namespace AeronGo.Conductor.ClientConductor

open Machine Atomic Driver

variable {α : Type} {isMatch : α → Bool}

/-! ## Events -/

section

variable {update : α → ClientConductor → Except Stop (α × ClientConductor)}

/-- An event that changes none of the entries that match. -/
theorem updateEach_idle {entries : List α} {cc : ClientConductor}
    (h : ∀ x ∈ entries, isMatch x = true → update x cc = .ok (x, cc)) :
    updateEach isMatch update entries cc = .ok (entries, cc) := by
  induction entries with
  | nil => rfl
  | cons x entries ih =>
    obtain ⟨hx, hrest⟩ := List.forall_mem_cons.mp h
    cases hmatch : isMatch x with
    | false =>
      simp only [updateEach, hmatch, Bool.false_eq_true, ↓reduceIte, ih hrest]
      rfl
    | true =>
      simp only [updateEach, hmatch, ↓reduceIte, hx hmatch, ok_bind, ih hrest]
      rfl

theorem updateEach_none {entries : List α} (h : ∀ x ∈ entries, isMatch x = false) (cc : ClientConductor) :
    updateEach isMatch update entries cc = .ok (entries, cc) :=
  updateEach_idle fun x hx hmatch => absurd hmatch (by rw [h x hx]; nofun)

theorem updateEach_one {front back : List α} {x : α} (hfront : ∀ y ∈ front, isMatch y = false)
    (hx : isMatch x = true) (hback : ∀ y ∈ back, isMatch y = false) (cc : ClientConductor) :
    updateEach isMatch update (front ++ x :: back) cc = (do
      let (x', cc) ← update x cc
      return (front ++ x' :: back, cc)) := by
  induction front with
  | nil =>
    simp only [List.nil_append, updateEach, hx, ↓reduceIte]
    cases update x cc with
    | error e => rfl
    | ok r => simp only [ok_bind, updateEach_none hback]
  | cons y front ih =>
    obtain ⟨hy, hrest⟩ := List.forall_mem_cons.mp hfront
    simp only [List.cons_append, updateEach, hy, Bool.false_eq_true, ↓reduceIte, ih hrest]
    cases update x cc with
    | error e => rfl
    | ok r => rfl

end

/-! ## Releases -/

section

variable {release : α → ClientConductor → Outcome}

theorem releaseEach_none {entries : List α} (h : ∀ x ∈ entries, isMatch x = false) (is : List Nat)
    (cc : ClientConductor) : releaseEach isMatch release is entries cc = .ok (none, entries, cc) := by
  induction is with
  | nil => rfl
  | cons i is ih =>
    unfold releaseEach
    cases hentry : entries[i]? with
    | none => exact ih
    | some entry =>
      simp only [h entry (List.mem_of_getElem? hentry), Bool.false_eq_true, ↓reduceIte]
      exact ih

/-- Indices before the entry that matches are passed. -/
theorem releaseEach_skip {entries : List α} {is : List Nat} (h : ∀ i ∈ is, ∀ x, entries[i]? = some x → isMatch x = false)
    (is' : List Nat) (cc : ClientConductor) :
    releaseEach isMatch release (is ++ is') entries cc = releaseEach isMatch release is' entries cc := by
  induction is with
  | nil => rfl
  | cons i is ih =>
    obtain ⟨hi, hrest⟩ := List.forall_mem_cons.mp h
    rw [List.cons_append, releaseEach]
    cases hentry : entries[i]? with
    | none => exact ih hrest
    | some entry =>
      simp only [hi entry hentry, Bool.false_eq_true, ↓reduceIte]
      exact ih hrest

theorem releaseEach_one {front back : List α} {x : α} (hfront : ∀ y ∈ front, isMatch y = false)
    (hx : isMatch x = true) (hback : ∀ y ∈ back, isMatch y = false) (cc : ClientConductor) :
    releaseEach isMatch release (List.range (front ++ x :: back).length) (front ++ x :: back) cc = (do
      match ← release x cc with
      | (some err, cc) => return (some err, front ++ x :: back, cc)
      | (none, cc) => return (none, Slice.swapRemove (front ++ x :: back) front.length, cc)) := by
  have hsplit : List.range (front ++ x :: back).length =
      List.range front.length ++ front.length :: List.map (fun i => front.length + 1 + i) (List.range back.length) := by
    rw [List.length_append, List.length_cons, Nat.add_comm back.length 1, ← Nat.add_assoc, List.range_add,
      List.range_succ, List.append_assoc]
    rfl
  have hskip : ∀ i ∈ List.range front.length, ∀ y, (front ++ x :: back)[i]? = some y → isMatch y = false := by
    intro i hi y hy
    rw [List.getElem?_append_left (List.mem_range.mp hi)] at hy
    exact hfront y (List.mem_of_getElem? hy)
  have hothers : ∀ y ∈ Slice.swapRemove (front ++ x :: back) front.length, isMatch y = false := by
    intro y hy
    rcases List.mem_append.mp ((Slice.swapRemove_perm front back x).mem_iff.mp hy) with h | h
    · exact hfront y h
    · exact hback y h
  rw [hsplit, releaseEach_skip hskip, releaseEach, Slice.getElem?_middle]
  simp only [hx, ↓reduceIte]
  cases release x cc with
  | error e => rfl
  | ok r =>
    obtain ⟨err, cc'⟩ := r
    cases err with
    | some err => rfl
    | none => exact releaseEach_none hothers _ cc'

end

/-- With distinct ids the others do not match. -/
theorem others_of_nodup {key : α → Int} {front back : List α} {x : α}
    (hnodup : ((front ++ x :: back).map key).Nodup) :
    (∀ y ∈ front, decide (key y = key x) = false) ∧ ∀ y ∈ back, decide (key y = key x) = false := by
  rw [List.map_append, List.map_cons, List.nodup_append] at hnodup
  obtain ⟨_, hback, hdisjoint⟩ := hnodup
  refine ⟨fun y hy => decide_eq_false ?_, fun y hy => decide_eq_false ?_⟩
  · exact hdisjoint _ (List.mem_map_of_mem hy) _ (List.mem_cons_self ..)
  · intro heq
    exact (List.nodup_cons.mp hback).1 (heq ▸ List.mem_map_of_mem hy)

theorem split_of_nodup {key : α → Int} {entries : List α} (hnodup : (entries.map key).Nodup) {x : α}
    (hx : x ∈ entries) : ∃ front back, entries = front ++ x :: back ∧
      (∀ y ∈ front, decide (key y = key x) = false) ∧ ∀ y ∈ back, decide (key y = key x) = false := by
  obtain ⟨front, back, rfl⟩ := List.append_of_mem hx
  exact ⟨front, back, rfl, others_of_nodup hnodup⟩

/-- An event finds one registration or none. -/
theorem updateEach_cases {key : α → Int} {id : Int} {cc cc' : ClientConductor}
    {update : α → ClientConductor → Except Stop (α × ClientConductor)} {entries entries' : List α}
    (hnodup : (entries.map key).Nodup)
    (h : updateEach (fun x => decide (key x = id)) update entries cc = .ok (entries', cc')) :
    entries' = entries ∧ cc' = cc ∨ ∃ front x x' back, entries = front ++ x :: back ∧ key x = id ∧
      update x cc = .ok (x', cc') ∧ entries' = front ++ x' :: back := by
  by_cases hany : ∃ x ∈ entries, key x = id
  · obtain ⟨x, hx, rfl⟩ := hany
    obtain ⟨front, back, rfl, hfront, hback⟩ := split_of_nodup hnodup hx
    rw [updateEach_one hfront (decide_eq_true rfl) hback] at h
    obtain ⟨⟨x', b⟩, hupdate, hrest⟩ := ok_of_bind h
    cases hrest
    exact .inr ⟨front, x, x', back, rfl, rfl, hupdate, rfl⟩
  · rw [updateEach_none fun x hx => decide_eq_false fun heq => hany ⟨x, hx, heq⟩] at h
    cases h
    exact .inl ⟨rfl, rfl⟩

/-! ## A registered subscription -/

/-- The conductor has one registration with the id, for the subscription object. -/
structure Registered (cc : ClientConductor) (regID : Int) (ref : Nat) : Prop where
  distinct : (cc.subs.map (·.regID)).Nodup
  entry : ∃ sub ∈ cc.subs, sub.regID = regID ∧ sub.subscription = some ref

theorem Registered.split {cc : ClientConductor} {regID : Int} {ref : Nat} (h : Registered cc regID ref) :
    ∃ front sub back, cc.subs = front ++ sub :: back ∧ sub.regID = regID ∧ sub.subscription = some ref ∧
      (∀ y ∈ front, decide (y.regID = regID) = false) ∧ ∀ y ∈ back, decide (y.regID = regID) = false := by
  obtain ⟨sub, hsub, rfl, href⟩ := h.entry
  obtain ⟨front, back, hsplit, hfront, hback⟩ := split_of_nodup h.distinct hsub
  exact ⟨front, sub, back, hsplit, rfl, href, hfront, hback⟩

variable {w : World} {cc cc' : ClientConductor} {regID : Int} {ref : Nat} {subscription : Subscription}

theorem linger_ok {a b : ClientConductor} {time : Int} {resource : Resource} (h : a.linger time resource = .ok b) :
    b = { a with lingeringResources := a.lingeringResources ++ [⟨time, resource⟩] } ∧
      a.lingeringResources.length < lingerCapacity := by
  unfold linger at h
  split at h
  next hroom =>
    cases h
    exact ⟨rfl, hroom⟩
  next => cases h

/-- An image is added to the list of its subscription, and announced. -/
theorem onAvailableImage_eq (h : Registered cc regID ref) (hobject : cc.subscriptions[ref]? = some subscription)
    (sessionID corrID : Int) : cc.onAvailableImage sessionID regID corrID = .ok { cc with
      nextID := cc.nextID + 1
      subscriptions := cc.subscriptions.set ref (addImage subscription ⟨cc.nextID, sessionID, corrID⟩)
      imageCalls := if subscription.availableImageHandler then
        cc.imageCalls ++ [.available regID ⟨cc.nextID, sessionID, corrID⟩] else cc.imageCalls } := by
  obtain ⟨front, sub, back, hsplit, hid, href, hfront, hback⟩ := h.split
  rw [onAvailableImage, hsplit, updateEach_one hfront (decide_eq_true hid) hback]
  simp only [imageAvailable, href, hobject, ok_bind, ← hsplit, hid]
  rfl

theorem onAvailableImage_registered (h : Registered cc regID ref) (hobject : cc.subscriptions[ref]? = some subscription)
    (sessionID corrID : Int) : ∃ calls, cc.onAvailableImage sessionID regID corrID = .ok { cc with
      nextID := cc.nextID + 1
      subscriptions := cc.subscriptions.set ref (addImage subscription ⟨cc.nextID, sessionID, corrID⟩)
      imageCalls := calls } :=
  ⟨_, onAvailableImage_eq h hobject sessionID corrID⟩

/-- An image is taken from the list of its subscription and announced, and lingers. -/
theorem onUnavailableImage_eq (h : Registered cc regID ref)
    (hobject : cc.subscriptions[ref]? = some subscription) (corrID : Int) :
    cc.onUnavailableImage w corrID regID = linger { cc with
      subscriptions := cc.subscriptions.set ref (removeImage subscription corrID).2
      imageCalls := if subscription.unavailableImageHandler then
        cc.imageCalls ++ [.unavailable regID (removeImage subscription corrID).1] else cc.imageCalls }
      (w.now regID) (resourceOf (removeImage subscription corrID).1) := by
  obtain ⟨front, sub, back, hsplit, hid, href, hfront, hback⟩ := h.split
  obtain ⟨b, hb⟩ : ∃ b, b = linger { cc with
      subscriptions := cc.subscriptions.set ref (removeImage subscription corrID).2
      imageCalls := if subscription.unavailableImageHandler then
        cc.imageCalls ++ [.unavailable regID (removeImage subscription corrID).1] else cc.imageCalls }
      (w.now regID) (resourceOf (removeImage subscription corrID).1) := ⟨_, rfl⟩
  have hupdate : imageUnavailable w corrID sub cc = (do return (sub, ← b)) := by
    simp only [imageUnavailable, href, hobject, hid, hb]
  rw [← hb, onUnavailableImage, hsplit, updateEach_one hfront (decide_eq_true hid) hback, hupdate]
  -- the loop puts back the registrations that it read
  cases b with
  | error e => rfl
  | ok c =>
    have hsubs : c.subs = front ++ sub :: back := by rw [(linger_ok hb.symm).1, hsplit]
    change Except.ok { c with subs := front ++ sub :: back } = .ok c
    rw [← hsubs]

theorem onUnavailableImage_registered (h : Registered cc regID ref)
    (hobject : cc.subscriptions[ref]? = some subscription) {corrID : Int}
    (hcc : cc.onUnavailableImage w corrID regID = .ok cc') : ∃ time calls, cc' = { cc with
      subscriptions := cc.subscriptions.set ref (removeImage subscription corrID).2
      imageCalls := calls
      lingeringResources := cc.lingeringResources ++ [⟨time, resourceOf (removeImage subscription corrID).1⟩] } ∧
        cc.lingeringResources.length < lingerCapacity := by
  rw [onUnavailableImage_eq h hobject] at hcc
  exact ⟨_, _, linger_ok hcc⟩

/-- Events of a subscription that is not ready change nothing. -/
theorem onAvailableImage_unready (h : ∀ sub ∈ cc.subs, sub.regID = regID → sub.subscription = none)
    (sessionID corrID : Int) : cc.onAvailableImage sessionID regID corrID = .ok cc := by
  rw [onAvailableImage, updateEach_idle fun sub hsub hid => ?_]
  · rfl
  · rw [imageAvailable, h sub hsub (of_decide_eq_true hid)]

theorem onUnavailableImage_unready (h : ∀ sub ∈ cc.subs, sub.regID = regID → sub.subscription = none) (corrID : Int) :
    cc.onUnavailableImage w corrID regID = .ok cc := by
  rw [onUnavailableImage, updateEach_idle fun sub hsub hid => ?_]
  · rfl
  · rw [imageUnavailable, h sub hsub (of_decide_eq_true hid)]

theorem onAvailableImage_unregistered (h : ∀ sub ∈ cc.subs, sub.regID ≠ regID) (sessionID corrID : Int) :
    cc.onAvailableImage sessionID regID corrID = .ok cc :=
  onAvailableImage_unready (fun sub hsub hid => absurd hid (h sub hsub)) sessionID corrID

theorem onUnavailableImage_unregistered (h : ∀ sub ∈ cc.subs, sub.regID ≠ regID) (corrID : Int) :
    cc.onUnavailableImage w corrID regID = .ok cc :=
  onUnavailableImage_unready (fun sub hsub hid => absurd hid (h sub hsub)) corrID

theorem releaseImages_ok {sub : SubscriptionState} {hasHandler : Bool} {images : List Image} {a b : ClientConductor}
    (h : releaseImages w sub hasHandler images a = .ok b) : ∃ calls, b = { a with
      imageCalls := calls
      lingeringResources := a.lingeringResources ++ images.map fun image => ⟨w.now sub.regID, .image image.id⟩ } := by
  induction images generalizing a with
  | nil =>
    cases h
    exact ⟨_, by rw [List.map_nil, List.append_nil]⟩
  | cons image images ih =>
    unfold releaseImages at h
    obtain ⟨c, hc, hrest⟩ := ok_of_bind h
    obtain ⟨calls, rfl⟩ := ih hrest
    rw [(linger_ok hc).1]
    refine ⟨calls, ?_⟩
    cases hasHandler <;> simp

/-- A registration that the driver lets go is removed, and the images given linger. -/
theorem releaseSubscription_registered (h : Registered cc regID ref) (hactive : cc.driverActive = true)
    (htakes : w.takes (.removeSubscription regID) = true) {images : List Image} {err : Option String}
    (hcc : cc.releaseSubscription w regID images = .ok (err, cc')) : err = none ∧ ∃ time calls subs, cc' = { cc with
      commands := cc.commands ++ [.removeSubscription regID]
      imageCalls := calls
      lingeringResources := cc.lingeringResources ++ images.map fun image => ⟨time, .image image.id⟩
      subs := subs } ∧ ∀ sub ∈ subs, sub.regID ≠ regID := by
  obtain ⟨front, sub, back, hsplit, hid, href, hfront, hback⟩ := h.split
  simp only [releaseSubscription, getDriverStatus, hactive, ↓reduceIte] at hcc
  rw [hsplit, releaseEach_one hfront (decide_eq_true hid) hback] at hcc
  simp only [releaseSubscriptionState, writeCommandToDriver, hid, htakes, ↓reduceIte] at hcc
  obtain ⟨⟨err', subs, b⟩, hb, hrest⟩ := ok_of_bind hcc
  obtain ⟨⟨err'', c⟩, hc, hswap⟩ := ok_of_bind hb
  obtain ⟨d, hd, hreturn⟩ := ok_of_bind hc
  cases hreturn
  cases hswap
  cases hrest
  obtain ⟨calls, rfl⟩ := releaseImages_ok hd
  refine ⟨rfl, _, calls, _, rfl, ?_⟩
  intro y hy
  rcases List.mem_append.mp ((Slice.swapRemove_perm front back sub).mem_iff.mp hy) with hmem | hmem
  · exact of_decide_eq_false (hfront y hmem)
  · exact of_decide_eq_false (hback y hmem)

end AeronGo.Conductor.ClientConductor
