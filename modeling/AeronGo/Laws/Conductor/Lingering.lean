import AeronGo.Conductor.Lingering
import AeronGo.Laws.Conductor.Release

/-!
# Lingering resources are closed, but not always on time

A check closes the expired entries at the head of the channel, and puts the first one that has not expired back at
its tail (`checkLingering_eq`). Whatever was released lingers or was closed once. A check closes all that has
expired if and only if it finds the expired entries in front of the others.
-/

namespace AeronGo.Conductor

open Machine Atomic Driver

namespace ClientConductor

variable {w : World} {cc cc' : ClientConductor}

/-! ## What closing does -/

/-- The resources of entries; there is nothing to close for nil. -/
def resourcesOf (entries : List LingerResource) : List Resource := (entries.map (·.resource)).filter (· ≠ .nil)

/-- The errors of unmapping. -/
def closeErrors (w : World) (entries : List LingerResource) : List String := (resourcesOf entries).filterMap w.closeError

theorem resourcesOf_append (xs ys : List LingerResource) : resourcesOf (xs ++ ys) = resourcesOf xs ++ resourcesOf ys := by
  simp only [resourcesOf, List.map_append, List.filter_append]

theorem resourcesOf_perm {xs ys : List LingerResource} (h : xs.Perm ys) : (resourcesOf xs).Perm (resourcesOf ys) :=
  (h.map _).filter _

theorem closeErrors_append (xs ys : List LingerResource) :
    closeErrors w (xs ++ ys) = closeErrors w xs ++ closeErrors w ys := by
  simp only [closeErrors, resourcesOf_append, List.filterMap_append]

/-- Errors are reported, or end the process. -/
def Closable (w : World) (cc : ClientConductor) (entries : List LingerResource) : Prop :=
  cc.hasErrorHandler = true ∨ closeErrors w entries = []

instance (w : World) (cc : ClientConductor) (entries : List LingerResource) : Decidable (Closable w cc entries) :=
  inferInstanceAs (Decidable (_ ∨ _))

/-- The conductor after `entries` were closed, if `left` still lingers. -/
def afterClosing (w : World) (cc : ClientConductor) (entries left : List LingerResource) : ClientConductor :=
  { cc with
    errors := cc.errors ++ closeErrors w entries
    lingeringResources := left
    closedResources := cc.closedResources ++ resourcesOf entries }

def closing (w : World) (cc : ClientConductor) (entries left : List LingerResource) : Except Stop ClientConductor :=
  if Closable w cc entries then .ok (afterClosing w cc entries left) else .error .fatal

theorem closing_ok {entries left : List LingerResource} (h : closing w cc entries left = .ok cc') :
    cc' = afterClosing w cc entries left := by
  rw [closing] at h
  split at h
  · cases h
    rfl
  · cases h

theorem closing_nil (left : List LingerResource) : closing w cc [] left = .ok { cc with lingeringResources := left } := by
  rw [closing, if_pos (.inr rfl)]
  simp only [afterClosing, closeErrors, resourcesOf, List.map_nil, List.filter_nil, List.filterMap_nil, List.append_nil]

theorem closing_cons (r : LingerResource) (rest entries left : List LingerResource) :
    (closing w cc [r] rest >>= fun cc => closing w cc entries left) = closing w cc (r :: entries) left := by
  have herrors : closeErrors w (r :: entries) = closeErrors w [r] ++ closeErrors w entries := closeErrors_append [r] entries
  have hresources : resourcesOf (r :: entries) = resourcesOf [r] ++ resourcesOf entries := resourcesOf_append [r] entries
  have hiff : Closable w cc (r :: entries) ↔ Closable w cc [r] ∧ Closable w (afterClosing w cc [r] rest) entries := by
    rw [Closable, herrors, List.append_eq_nil_iff]
    exact or_and_left
  by_cases hr : Closable w cc [r]
  · rw [closing, if_pos hr, ok_bind]
    by_cases hentries : Closable w (afterClosing w cc [r] rest) entries
    · rw [closing, if_pos hentries, closing, if_pos (hiff.mpr ⟨hr, hentries⟩)]
      simp only [afterClosing, herrors, hresources, List.append_assoc]
    · rw [closing, if_neg hentries, closing, if_neg fun h => hentries (hiff.mp h).2]
  · rw [closing, if_neg hr, closing, if_neg fun h => hr (hiff.mp h).1]
    rfl

theorem closing_bind {entries left : List LingerResource} {f g : ClientConductor → Except Stop ClientConductor}
    (h : f (afterClosing w cc entries left) = g (afterClosing w cc entries left)) :
    closing w cc entries left >>= f = closing w cc entries left >>= g := by
  rw [closing]
  split
  · exact h
  · rfl

theorem closeResource_eq (r : LingerResource) (rest : List LingerResource) :
    ({ cc with lingeringResources := rest } : ClientConductor).closeResource w r.resource = closing w cc [r] rest := by
  obtain ⟨lastTime, resource⟩ := r
  cases resource with
  | nil => simp [closeResource, closing, Closable, afterClosing, closeErrors, resourcesOf]
  | buffers id => cases h : w.closeError (.buffers id) <;> cases hhandler : cc.hasErrorHandler <;>
      simp [closeResource, onError, closing, Closable, afterClosing, closeErrors, resourcesOf, h, hhandler]
  | image id => cases h : w.closeError (.image id) <;> cases hhandler : cc.hasErrorHandler <;>
      simp [closeResource, onError, closing, Closable, afterClosing, closeErrors, resourcesOf, h, hhandler]

/-- `forceCloseResources` closes whatever lingers. -/
theorem forceClose_eq {queue : List LingerResource} (hqueue : cc.lingeringResources = queue) :
    forceClose w queue cc = closing w cc queue [] := by
  induction queue generalizing cc with
  | nil =>
    have hself : { cc with lingeringResources := [] } = cc := by rw [← hqueue]
    rw [closing_nil, hself, forceClose]
  | cons r rest ih =>
    rw [forceClose, closeResource_eq, ← closing_cons r rest rest []]
    exact closing_bind (ih rfl)

/-- The test of `onCheckManagedResources`. -/
def hasExpired (timeoutNs now : Int) (r : LingerResource) : Bool := timeoutNs < i64 (now - r.lastTime)

/-- The first entry that has not expired goes to the tail. -/
def rotate : List LingerResource → List LingerResource
  | [] => []
  | r :: rest => rest ++ [r]

theorem rotate_perm (queue : List LingerResource) : (rotate queue).Perm queue := by
  cases queue with
  | nil => exact .refl _
  | cons r rest => exact List.perm_append_comm

/-- A check closes the entries at the head that have expired. -/
theorem checkLingering_eq {now : Int} {queue : List LingerResource} (hqueue : cc.lingeringResources = queue) :
    checkLingering w now queue cc = closing w cc (queue.takeWhile (hasExpired cc.resourceLingerTimeoutNs now))
      (rotate (queue.dropWhile (hasExpired cc.resourceLingerTimeoutNs now))) := by
  induction queue generalizing cc with
  | nil =>
    have hself : { cc with lingeringResources := [] } = cc := by rw [← hqueue]
    rw [List.takeWhile_nil, closing_nil, List.dropWhile_nil, rotate, hself, checkLingering]
  | cons r rest ih =>
    rw [checkLingering]
    by_cases hexpired : cc.resourceLingerTimeoutNs < i64 (now - r.lastTime)
    · have hcode : hasExpired cc.resourceLingerTimeoutNs now r = true := decide_eq_true hexpired
      rw [if_pos hexpired, closeResource_eq, List.takeWhile_cons_of_pos hcode, List.dropWhile_cons_of_pos hcode,
        ← closing_cons r rest (rest.takeWhile _)]
      refine closing_bind ?_
      exact ih rfl
    · have hcode : ¬ hasExpired cc.resourceLingerTimeoutNs now r = true := fun h => hexpired (of_decide_eq_true h)
      rw [if_neg hexpired, List.takeWhile_cons_of_neg hcode, List.dropWhile_cons_of_neg hcode, closing_nil]
      rfl

/-- A check that ends has closed some entries, and the others still linger. -/
theorem checkLingering_ok {now : Int} {queue : List LingerResource} (hqueue : cc.lingeringResources = queue)
    (h : checkLingering w now queue cc = .ok cc') :
    ∃ entries left, (entries ++ left).Perm queue ∧ cc' = afterClosing w cc entries left := by
  rw [checkLingering_eq hqueue] at h
  refine ⟨_, _, ((rotate_perm _).append_left _).trans ?_, closing_ok h⟩
  rw [List.takeWhile_append_dropWhile]

/-! ## What a check should do -/

/-- An entry is older than the linger timeout. -/
def Expired (cc : ClientConductor) (now : Int) (r : LingerResource) : Prop :=
  cc.resourceLingerTimeoutNs < now - r.lastTime

instance (cc : ClientConductor) (now : Int) (r : LingerResource) : Decidable (cc.Expired now r) :=
  inferInstanceAs (Decidable (_ < _))

/-- Exactly what has expired is closed, and all else stays. -/
structure ClosesExpired (cc : ClientConductor) (now : Int) (cc' : ClientConductor) : Prop where
  closed : cc'.closedResources.Perm
    (cc.closedResources ++ resourcesOf (cc.lingeringResources.filter fun r => cc.Expired now r))
  lingers : cc'.lingeringResources.Perm (cc.lingeringResources.filter fun r => ¬ cc.Expired now r)

/-- What the check takes to have expired is in front of all that has not. -/
def Orderly (cc : ClientConductor) (now : Int) : Prop :=
  ∃ front back, cc.lingeringResources = front ++ back ∧
    (∀ r ∈ front, hasExpired cc.resourceLingerTimeoutNs now r = true) ∧ ∀ r ∈ back, ¬ cc.Expired now r

/-- The times of entries are in the past. -/
def Past (now : Int) (queue : List LingerResource) : Prop := ∀ r ∈ queue, r.lastTime ≤ now

/-- An age that is no `int64` is taken for less than it is. -/
theorem expired_of_hasExpired {now : Int} {r : LingerResource} (hpast : r.lastTime ≤ now)
    (h : hasExpired cc.resourceLingerTimeoutNs now r = true) : cc.Expired now r := by
  have hage : i64 (now - r.lastTime) ≤ now - r.lastTime := by
    unfold i64
    omega
  exact Int.lt_of_lt_of_le (of_decide_eq_true h) hage

section

variable {now : Int} {front back : List LingerResource} (hqueue : cc.lingeringResources = front ++ back)
  (hfront : ∀ r ∈ front, cc.Expired now r) (hback : ∀ r ∈ back, ¬ cc.Expired now r)

include hqueue hfront hback

theorem filter_expired : cc.lingeringResources.filter (fun r => cc.Expired now r) = front := by
  rw [hqueue, List.filter_append, List.filter_eq_self.mpr fun r hr => decide_eq_true (hfront r hr),
    List.filter_eq_nil_iff.mpr fun r hr h => hback r hr (of_decide_eq_true h), List.append_nil]

theorem filter_not_expired : cc.lingeringResources.filter (fun r => ¬ cc.Expired now r) = back := by
  rw [hqueue, List.filter_append, List.filter_eq_self.mpr fun r hr => decide_eq_true (hback r hr),
    List.filter_eq_nil_iff.mpr fun r hr h => of_decide_eq_true (p := ¬ cc.Expired now r) h (hfront r hr),
    List.nil_append]

end

/-- A check does what it should if and only if the channel is orderly and every error can be reported. -/
theorem onCheckManagedResources_iff {now : Int} (hpast : Past now cc.lingeringResources) :
    (∃ cc', cc.onCheckManagedResources w now = .ok cc' ∧ cc.ClosesExpired now cc') ↔
      cc.Orderly now ∧ Closable w cc (cc.lingeringResources.filter fun r => cc.Expired now r) := by
  rw [onCheckManagedResources, checkLingering_eq rfl]
  have hexpired : ∀ r ∈ cc.lingeringResources, hasExpired cc.resourceLingerTimeoutNs now r = true → cc.Expired now r :=
    fun r hr => expired_of_hasExpired (hpast r hr)
  constructor
  · rintro ⟨cc', hcc', hcloses⟩
    obtain ⟨front, hfront⟩ : ∃ front, front =
      cc.lingeringResources.takeWhile (hasExpired cc.resourceLingerTimeoutNs now) := ⟨_, rfl⟩
    obtain ⟨back, hback⟩ : ∃ back, back =
      cc.lingeringResources.dropWhile (hasExpired cc.resourceLingerTimeoutNs now) := ⟨_, rfl⟩
    have hqueue : cc.lingeringResources = front ++ back := by
      rw [hfront, hback, List.takeWhile_append_dropWhile]
    rw [← hfront, ← hback, closing] at hcc'
    split at hcc'
    next hclosable =>
      cases hcc'
      have hcode : ∀ r ∈ front, hasExpired cc.resourceLingerTimeoutNs now r = true := fun r hr =>
        List.mem_takeWhile_imp (hfront ▸ hr)
      have hyoung : ∀ r ∈ back, ¬ cc.Expired now r := fun r hr =>
        of_decide_eq_true (List.mem_filter.mp (hcloses.lingers.mem_iff.mp ((rotate_perm back).mem_iff.mpr hr))).2
      have hold : ∀ r ∈ front, cc.Expired now r := fun r hr =>
        hexpired r (hqueue ▸ List.mem_append_left _ hr) (hcode r hr)
      rw [filter_expired hqueue hold hyoung]
      exact ⟨⟨front, back, hqueue, hcode, hyoung⟩, hclosable⟩
    next => cases hcc'
  · rintro ⟨⟨front, back, hqueue, hcode, hyoung⟩, hclosable⟩
    have hold : ∀ r ∈ front, cc.Expired now r := fun r hr =>
      hexpired r (hqueue ▸ List.mem_append_left _ hr) (hcode r hr)
    -- the check stops at the first entry of the back
    have hstop : back.takeWhile (hasExpired cc.resourceLingerTimeoutNs now) = [] ∧
        back.dropWhile (hasExpired cc.resourceLingerTimeoutNs now) = back := by
      cases back with
      | nil => exact ⟨rfl, rfl⟩
      | cons r rest =>
        have hno : ¬ hasExpired cc.resourceLingerTimeoutNs now r = true := fun h =>
          hyoung r List.mem_cons_self (hexpired r (hqueue ▸ List.mem_append_right _ List.mem_cons_self) h)
        exact ⟨List.takeWhile_cons_of_neg hno, List.dropWhile_cons_of_neg hno⟩
    rw [filter_expired hqueue hold hyoung] at hclosable
    have hclosing : closing w cc (cc.lingeringResources.takeWhile (hasExpired cc.resourceLingerTimeoutNs now))
        (rotate (cc.lingeringResources.dropWhile (hasExpired cc.resourceLingerTimeoutNs now))) =
        .ok (afterClosing w cc front (rotate back)) := by
      rw [hqueue, List.takeWhile_append_of_pos hcode, List.dropWhile_append_of_pos hcode, hstop.1, hstop.2,
        List.append_nil, closing, if_pos hclosable]
    refine ⟨_, hclosing, ⟨?_, ?_⟩⟩
    · rw [filter_expired hqueue hold hyoung]
      exact .refl _
    · rw [filter_not_expired hqueue hold hyoung]
      exact rotate_perm back

end ClientConductor

/-! ## Runs -/

open ClientConductor

/-- What was released lingers or was closed, and its time is in the past. -/
structure Lingering.Accounted (s : Lingering) : Prop where
  released : (s.cc.closedResources ++ resourcesOf s.cc.lingeringResources).Perm (resourcesOf s.released)
  past : Past s.clock s.cc.lingeringResources

namespace Lingering.Accounted

variable {s t : Lingering}

/-- A release. -/
theorem sends (h : s.Accounted) {w : World} {now : Int} (hclock : s.clock ≤ now)
    (hqueue : ∃ entries, t.cc.lingeringResources = s.cc.lingeringResources ++ entries ∧
      ∀ r ∈ entries, ∃ regID, r.lastTime = (LingerCall.atTime w now).now regID)
    (hclosed : t.cc.closedResources = s.cc.closedResources) (ht : t.clock = now)
    (hreleased : t.released = s.released ++ t.cc.lingeringResources.drop s.cc.lingeringResources.length) :
    t.Accounted := by
  obtain ⟨entries, hqueue, htimes⟩ := hqueue
  rw [hqueue, List.drop_left] at hreleased
  refine ⟨?_, fun r hr => ?_⟩
  · rw [hreleased, hqueue, hclosed, resourcesOf_append, resourcesOf_append, ← List.append_assoc]
    exact h.released.append_right _
  · rw [ht]
    rw [hqueue] at hr
    cases List.mem_append.mp hr with
    | inl hold => exact Int.le_trans (h.past r hold) hclock
    | inr hnew =>
      obtain ⟨_, htime⟩ := htimes r hnew
      exact Int.le_of_eq htime

/-- Entries were closed, and the others are still there. -/
theorem closes (h : s.Accounted) {w : World} {now : Int} {entries left : List LingerResource} (hclock : s.clock ≤ now)
    (hperm : (entries ++ left).Perm s.cc.lingeringResources) (hcc : t.cc = afterClosing w s.cc entries left)
    (ht : t.clock = now) (hreleased : t.released = s.released) : t.Accounted := by
  refine ⟨?_, fun r hr => ?_⟩
  · rw [hcc, hreleased, afterClosing, List.append_assoc, ← resourcesOf_append]
    exact ((resourcesOf_perm hperm).append_left _).trans h.released
  · rw [hcc] at hr
    rw [ht]
    exact Int.le_trans (h.past r (hperm.mem_iff.mp (List.mem_append_right _ hr))) hclock

theorem step (h : s.Accounted) {a : World × Int × LingerCall} (hallowed : a.2.2.Allowed s.cc) (hstep : s.step a = some t) :
    t.Accounted := by
  obtain ⟨w, now, call⟩ := a
  unfold Lingering.step at hstep
  dsimp only at hstep
  split at hstep
  case isFalse => cases hstep
  rename_i hclock
  split at hstep
  case h_2 => cases hstep
  next cc' hrun =>
  cases hstep
  cases call with
  | releasePublication regID =>
    obtain ⟨⟨err, cc⟩, hcc, hrest⟩ := ok_of_bind hrun
    cases hrest
    obtain ⟨_, rest, b, hsends, _, rfl⟩ := releasePublication_releases hcc
    exact h.sends hclock hsends.queue hsends.closed rfl rfl
  | releaseSubscription regID images =>
    obtain ⟨⟨err, cc⟩, hcc, hrest⟩ := ok_of_bind hrun
    cases hrest
    obtain ⟨_, rest, b, hsends, _, rfl⟩ := releaseSubscription_releases hcc
    exact h.sends hclock hsends.queue hsends.closed rfl rfl
  | unavailableImage corrID regID =>
    have hsends := onUnavailableImage_sends hrun
    exact h.sends hclock hsends.queue hsends.closed rfl rfl
  | checkManagedResources =>
    obtain ⟨entries, left, hperm, hcc⟩ := checkLingering_ok rfl hrun
    exact h.closes hclock hperm hcc rfl (List.append_nil _)
  | forceCloseResources =>
    rw [LingerCall.run, ClientConductor.forceCloseResources, forceClose_eq rfl] at hrun
    refine h.closes hclock ?_ (closing_ok hrun) rfl (List.append_nil _)
    rw [List.append_nil]
  | other cc =>
    cases hrun
    refine h.sends hclock (w := w) ⟨[], ?_, nofun⟩ hallowed.closedResources rfl rfl
    rw [List.append_nil]
    exact hallowed.lingeringResources

end Lingering.Accounted

theorem accounted_of_reachable {s : Lingering} (h : Lingering.system.Reachable s) : s.Accounted := by
  refine h.invariant (fun s hs => ?_) fun s a t hs hnext => hs.step hnext.1 hnext.2
  obtain ⟨hqueue, hclosed, hreleased⟩ := hs
  refine ⟨?_, fun r hr => ?_⟩
  · rw [hqueue, hclosed, hreleased, List.nil_append]
  · rw [hqueue] at hr
    cases hr

/-- In every run, what was released lingers or was closed once. A check closes exactly what has expired if and only
if the channel is orderly and every error can be reported, and `forceCloseResources` closes what is left. -/
theorem lingering_closed_iff {s : Lingering} (h : Lingering.system.Reachable s) :
    (s.cc.closedResources ++ resourcesOf s.cc.lingeringResources).Perm (resourcesOf s.released) ∧
    (∀ w now, s.clock ≤ now →
      ((∃ cc, s.cc.onCheckManagedResources w now = .ok cc ∧ s.cc.ClosesExpired now cc) ↔
        s.cc.Orderly now ∧ Closable w s.cc (s.cc.lingeringResources.filter fun r => s.cc.Expired now r))) ∧
    ∀ w cc, s.cc.forceCloseResources w = .ok cc →
      cc.lingeringResources = [] ∧ cc.closedResources.Perm (resourcesOf s.released) := by
  have hs := accounted_of_reachable h
  refine ⟨hs.released, fun w now hnow => ?_, fun w cc hcc => ?_⟩
  · exact onCheckManagedResources_iff fun r hr => Int.le_trans (hs.past r hr) hnow
  · rw [forceCloseResources, forceClose_eq rfl] at hcc
    obtain rfl := closing_ok hcc
    exact ⟨rfl, hs.released⟩

namespace Lingering

/-- Two subscriptions, and a linger timeout of 10. -/
def twoSubscriptions : Lingering where
  cc := { ClientConductor.init 1000 10 true with
    subs := [ClientConductor.initSubscription "aeron:ipc" 2 7 0 false false,
      ClientConductor.initSubscription "aeron:ipc" 3 7 0 false false] }
  clock := 0
  released := []

/-- An image of each is released, at 0 and at 5. -/
def twoReleases : List (World × Int × LingerCall) :=
  [(ClientConductor.world true, 0, .releaseSubscription 2 [⟨0, 1, 1⟩]),
    (ClientConductor.world true, 5, .releaseSubscription 3 [⟨1, 1, 2⟩])]

theorem twoSubscriptions_start : twoSubscriptions.Start := ⟨rfl, rfl, rfl⟩

end Lingering

/-- At 12 the first of two entries has expired and the second has not, so the check closes the first. -/
theorem lingering_closed_iff_two : ∃ s, Lingering.system.Reachable s ∧
    ∃ cc, s.cc.onCheckManagedResources (ClientConductor.world true) 12 = .ok cc ∧ s.cc.ClosesExpired 12 cc := by
  obtain ⟨s, hs, htest⟩ := System.exists_reachable_guard Lingering.Start Lingering.step
    (fun s a => a.2.2.Allowed s.cc) Lingering.twoSubscriptions_start Lingering.twoReleases
    (fun s => s.cc.lingeringResources = [⟨0, .image 0⟩, ⟨5, .image 1⟩] ∧ s.cc.resourceLingerTimeoutNs = 10 ∧
      s.cc.hasErrorHandler = true ∧ s.clock = 5) (by decide +kernel)
  obtain ⟨hqueue, htimeout, hhandler, hclock⟩ := of_decide_eq_true htest
  refine ⟨s, hs, ((lingering_closed_iff hs).2.1 (ClientConductor.world true) 12 (by omega)).mpr ⟨?_, .inl hhandler⟩⟩
  refine ⟨[⟨0, .image 0⟩], [⟨5, .image 1⟩], hqueue, ?_, ?_⟩
  · rw [htimeout]
    decide
  · intro r hr
    rw [List.mem_singleton.mp hr, ClientConductor.Expired, htimeout]
    decide

/-- A check at 8 puts the first entry behind the second. So the check at 12 leaves it, though it has expired. -/
theorem expired_not_closed : ∃ s, Lingering.system.Reachable s ∧ s.clock ≤ 12 ∧
    ∃ r ∈ s.cc.lingeringResources, s.cc.Expired 12 r ∧
      ∃ cc, s.cc.onCheckManagedResources (ClientConductor.world true) 12 = .ok cc ∧ r ∈ cc.lingeringResources ∧ cc.closedResources = [] := by
  obtain ⟨s, hs, htest⟩ := System.exists_reachable_guard Lingering.Start Lingering.step
    (fun s a => a.2.2.Allowed s.cc) Lingering.twoSubscriptions_start
    (Lingering.twoReleases ++ [(ClientConductor.world true, 8, .checkManagedResources)])
    (fun s => s.clock ≤ 12 ∧ ⟨0, .image 0⟩ ∈ s.cc.lingeringResources ∧ s.cc.Expired 12 ⟨0, .image 0⟩ ∧
      (s.cc.onCheckManagedResources (ClientConductor.world true) 12).toOption.any fun cc =>
        ⟨0, .image 0⟩ ∈ cc.lingeringResources ∧ cc.closedResources = []) (by decide +kernel)
  obtain ⟨hclock, hqueue, hexpired, hcheck⟩ := of_decide_eq_true htest
  obtain ⟨cc, hcc, hleft⟩ := (Option.any_eq_true _ _).mp hcheck
  obtain ⟨hmem, hclosed⟩ := of_decide_eq_true hleft
  exact ⟨s, hs, hclock, ⟨0, .image 0⟩, hqueue, hexpired, cc, ok_of_toOption hcc, hmem, hclosed⟩

end AeronGo.Conductor
