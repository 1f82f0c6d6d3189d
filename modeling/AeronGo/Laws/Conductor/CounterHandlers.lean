import AeronGo.Conductor.CounterHandlers
import Mathlib.Data.List.Nodup

/-!
# Laws of the counter handlers

Up to their order the lists hold what is registered, and every call does to them what it should do to the
registrations, but for one: an unavailable handler that is removed by value stays. What a handler does when it is
called is left open.
-/

namespace AeronGo.Conductor

open Machine

/-! ## One registry -/

section Registry

variable {H : Type} {pairs registered : List (Int × H)} {isMatch : Int × H → Bool}

/-- Ids and handlers are distinct. -/
structure Distinct (pairs : List (Int × H)) : Prop where
  ids : (pairs.map Prod.fst).Nodup
  handlers : (pairs.map Prod.snd).Nodup

theorem Distinct.nil : Distinct ([] : List (Int × H)) := ⟨List.nodup_nil, List.nodup_nil⟩

theorem Distinct.add (h : Distinct registered) {pair : Int × H} (hnew : ∀ p ∈ registered, p.1 ≠ pair.1 ∧ p.2 ≠ pair.2) :
    Distinct (registered ++ [pair]) := by
  constructor
  · rw [List.map_append, List.nodup_append]
    refine ⟨h.ids, List.nodup_singleton _, fun a ha b hb => ?_⟩
    obtain ⟨p, hp, rfl⟩ := List.mem_map.mp ha
    rw [List.mem_singleton.mp hb]
    exact (hnew p hp).1
  · rw [List.map_append, List.nodup_append]
    refine ⟨h.handlers, List.nodup_singleton _, fun a ha b hb => ?_⟩
    obtain ⟨p, hp, rfl⟩ := List.mem_map.mp ha
    rw [List.mem_singleton.mp hb]
    exact (hnew p hp).2

theorem Distinct.without (h : Distinct registered) (isMatch : Int × H → Bool) :
    Distinct (Registrations.without isMatch registered).2 :=
  ⟨h.ids.sublist (List.filter_sublist.map _), h.handlers.sublist (List.filter_sublist.map _)⟩

/-- At most one registration matches. -/
def Single (isMatch : Int × H → Bool) (registered : List (Int × H)) : Prop :=
  ∀ p ∈ registered, ∀ q ∈ registered, isMatch p = true → isMatch q = true → p = q

theorem Distinct.single_id (h : Distinct registered) (id : Int) : Single (fun p => decide (p.1 = id)) registered :=
  fun _ hp _ hq hpid hqid => List.inj_on_of_nodup_map h.ids hp hq ((of_decide_eq_true hpid).trans (of_decide_eq_true hqid).symm)

theorem Distinct.single_handler [DecidableEq H] (h : Distinct registered) (handler : H) :
    Single (fun p => decide (p.2 = handler)) registered :=
  fun _ hp _ hq hpid hqid =>
    List.inj_on_of_nodup_map h.handlers hp hq ((of_decide_eq_true hpid).trans (of_decide_eq_true hqid).symm)

theorem removeFirst_never (pairs : List (Int × H)) : CounterHandlers.removeFirst (fun _ => false) pairs = (false, pairs) := by
  rw [CounterHandlers.removeFirst, Slice.removeFirst, List.findIdx?_eq_none_iff.mpr fun _ _ => rfl]
  rfl

theorem without_none (h : ∀ pair ∈ registered, isMatch pair = false) :
    Registrations.without isMatch registered = (false, registered) := by
  rw [Registrations.without, List.any_eq_false.mpr fun p hp => Bool.eq_false_iff.mp (h p hp),
    List.filter_eq_self.mpr fun p hp => by rw [h p hp]; rfl]

/-- **The loop of the remove functions takes the registration out.** -/
theorem removeFirst_without (hperm : pairs.Perm registered) (hdistinct : Distinct registered)
    (hsingle : Single isMatch registered) :
    (CounterHandlers.removeFirst isMatch pairs).1 = (Registrations.without isMatch registered).1 ∧
      (CounterHandlers.removeFirst isMatch pairs).2.Perm (Registrations.without isMatch registered).2 := by
  rcases Slice.removeFirst_cases isMatch pairs with ⟨hsame, hnone⟩ | ⟨x, rest, hfound, hmatch, hremoved⟩
  · rw [CounterHandlers.removeFirst, hsame, without_none fun p hp => hnone p (hperm.mem_iff.mpr hp)]
    exact ⟨rfl, hperm⟩
  · have hmem : x ∈ registered := (hremoved.trans hperm).subset List.mem_cons_self
    have htrue : registered.any isMatch = true := List.any_eq_true.mpr ⟨x, hmem, hmatch⟩
    simp only [CounterHandlers.removeFirst, hfound, Registrations.without, htrue, Option.isSome_some, true_and]
    -- the others do not match, so they are what the filter leaves
    have hnodup : (x :: rest).Nodup :=
      (hremoved.trans hperm).nodup_iff.mpr (List.Nodup.of_map _ hdistinct.ids)
    have hothers : ∀ p ∈ rest, isMatch p = false := by
      intro p hp
      have hmem' := (hremoved.trans hperm).mem_iff.mp (List.mem_cons_of_mem x hp)
      refine Bool.eq_false_iff.mpr fun hp' => ?_
      have heq := hsingle p hmem' x hmem hp' hmatch
      exact (List.nodup_cons.mp hnodup).1 (heq ▸ hp)
    have hfilter := (hremoved.trans hperm).filter fun p => !isMatch p
    rwa [List.filter_cons_of_neg (by rw [hmatch]; decide), List.filter_eq_self.mpr fun p hp => by rw [hothers p hp]; rfl]
      at hfilter

end Registry

/-! ## Runs -/

section Runs

variable {A U : Type} [DecidableEq A] [DecidableEq U]

/-- The lists hold what is registered, in some order. -/
structure Holds (s : CounterHandlers A U × Registrations A U) : Prop where
  available : s.1.availableCounterHandlers.Perm s.2.available
  unavailable : s.1.unavailableCounterHandlers.Perm s.2.unavailable

structure WellRegistered (s : CounterHandlers A U × Registrations A U) : Prop extends Holds s where
  availableDistinct : Distinct s.2.available
  unavailableDistinct : Distinct s.2.unavailable

/-- A call returns what it should and leaves what should be registered. -/
def Follows (s : CounterHandlers A U × Registrations A U) (call : HandlerCall A U) : Prop :=
  (s.1.perform call).1 = (s.2.perform call).1 ∧ Holds ((s.1.perform call).2, (s.2.perform call).2)

/-- The call does not remove a registered unavailable handler by value. -/
def Keeps (s : CounterHandlers A U × Registrations A U) : HandlerCall A U → Prop
  | .removeUnavailable handler => ∀ pair ∈ s.2.unavailable, pair.2 ≠ handler
  | _ => True

/-- A call of every handler that is registered, and of no other one, once. -/
structure Notifies (s : CounterHandlers A U × Registrations A U) : Prop where
  available : ∀ registrationId counterId, (s.1.onAvailableCounter registrationId counterId).Perm
    (s.2.available.map fun pair => (pair.2, registrationId, counterId))
  unavailable : ∀ registrationId counterId, (s.1.onUnavailableCounter registrationId counterId).Perm
    (s.2.unavailable.map fun pair => (pair.2, registrationId, counterId))
  availableOnce : (s.2.available.map Prod.snd).Nodup
  unavailableOnce : (s.2.unavailable.map Prod.snd).Nodup

variable {s : CounterHandlers A U × Registrations A U} {call : HandlerCall A U}

/-- One call. -/
theorem follows_of_keeps (h : WellRegistered s) (hkeeps : Keeps s call) : Follows s call := by
  cases call with
  | addAvailable registrationID handler => exact ⟨rfl, h.available.append_right _, h.unavailable⟩
  | removeAvailableById registrationId =>
    obtain ⟨hsame, hperm⟩ := removeFirst_without h.available h.availableDistinct (h.availableDistinct.single_id registrationId)
    exact ⟨congrArg some hsame, hperm, h.unavailable⟩
  | removeAvailable handler =>
    obtain ⟨hsame, hperm⟩ := removeFirst_without h.available h.availableDistinct (h.availableDistinct.single_handler handler)
    exact ⟨congrArg some hsame, hperm, h.unavailable⟩
  | addUnavailable registrationID handler => exact ⟨rfl, h.available, h.unavailable.append_right _⟩
  | removeUnavailableById registrationId =>
    obtain ⟨hsame, hperm⟩ :=
      removeFirst_without h.unavailable h.unavailableDistinct (h.unavailableDistinct.single_id registrationId)
    exact ⟨congrArg some hsame, h.available, hperm⟩
  | removeUnavailable handler =>
    have hnone : ∀ pair ∈ s.2.unavailable, decide (pair.2 = handler) = false := fun pair hp => decide_eq_false (hkeeps pair hp)
    simp only [Follows, CounterHandlers.perform, CounterHandlers.removeUnavailableCounterHandler, removeFirst_never,
      Registrations.perform, without_none hnone, true_and]
    exact ⟨h.available, h.unavailable⟩

/-- **The one that stays.** -/
theorem keeps_of_follows (h : Follows s call) : Keeps s call := by
  cases call with
  | removeUnavailable handler =>
    have hreturned := h.1
    simp only [CounterHandlers.perform, CounterHandlers.removeUnavailableCounterHandler, removeFirst_never,
      Registrations.perform, Registrations.without, Option.some.injEq] at hreturned
    intro pair hp heq
    exact List.any_eq_false.mp hreturned.symm pair hp (decide_eq_true heq)
  | _ => trivial

theorem distinct_of_isNew (h : WellRegistered s) (hnew : s.2.IsNew call) :
    Distinct (s.2.perform call).2.available ∧ Distinct (s.2.perform call).2.unavailable := by
  cases call with
  | addAvailable registrationID handler => exact ⟨h.availableDistinct.add hnew, h.unavailableDistinct⟩
  | removeAvailableById registrationId => exact ⟨h.availableDistinct.without _, h.unavailableDistinct⟩
  | removeAvailable handler => exact ⟨h.availableDistinct.without _, h.unavailableDistinct⟩
  | addUnavailable registrationID handler => exact ⟨h.availableDistinct, h.unavailableDistinct.add hnew⟩
  | removeUnavailableById registrationId => exact ⟨h.availableDistinct, h.unavailableDistinct.without _⟩
  | removeUnavailable handler => exact ⟨h.availableDistinct, h.unavailableDistinct.without _⟩

theorem registered_of_reachable (h : ((handlerSystem A U).guard Keeps).Reachable s) : WellRegistered s := by
  refine h.invariant ?_ ?_
  · rintro s rfl
    exact ⟨⟨List.Perm.nil, List.Perm.nil⟩, .nil, .nil⟩
  · rintro s call t hs ⟨hkeeps, hnew, rfl⟩
    obtain ⟨havailable, hunavailable⟩ := distinct_of_isNew hs hnew
    exact ⟨(follows_of_keeps hs hkeeps).2, havailable, hunavailable⟩

/-- **Handlers are called while they are registered**, and a call does what it should just if it does not remove a registered
unavailable handler by value. -/
theorem counter_handlers_iff (h : ((handlerSystem A U).guard Keeps).Reachable s) :
    Notifies s ∧ ∀ call, s.2.IsNew call → (Follows s call ↔ Keeps s call) := by
  have hs := registered_of_reachable h
  refine ⟨⟨fun _ _ => hs.available.map _, fun _ _ => hs.unavailable.map _, hs.availableDistinct.handlers,
    hs.unavailableDistinct.handlers⟩, fun call _ => ⟨keeps_of_follows, follows_of_keeps hs⟩⟩

end Runs

/-- One handler for each of the two kinds. -/
def oneEach : CounterHandlers Nat Nat × Registrations Nat Nat := (⟨[(1, 7)], [(2, 8)]⟩, ⟨[(1, 7)], [(2, 8)]⟩)

theorem oneEach_reachable : ((handlerSystem Nat Nat).guard Keeps).Reachable oneEach := by
  have hstart : ((handlerSystem Nat Nat).guard Keeps).Reachable (.init, ⟨[], []⟩) := .start rfl
  have hfirst : ((handlerSystem Nat Nat).guard Keeps).Reachable (⟨[(1, 7)], []⟩, ⟨[(1, 7)], []⟩) :=
    hstart.step (HandlerCall.addAvailable 1 7) ⟨trivial, fun _ hp => absurd hp List.not_mem_nil, rfl⟩
  exact hfirst.step (HandlerCall.addUnavailable 2 8) ⟨trivial, fun _ hp => absurd hp List.not_mem_nil, rfl⟩

/-- Both are called, and can be removed by their ids. -/
theorem counter_handlers_iff_one : Notifies oneEach ∧ Follows oneEach (.removeUnavailableById 2) := by
  obtain ⟨hnotifies, hfollows⟩ := counter_handlers_iff oneEach_reachable
  exact ⟨hnotifies, (hfollows (.removeUnavailableById 2) trivial).mpr trivial⟩

/-- **A handler of unavailable counters that is removed is told that it was not there, and is still called.** -/
theorem unavailable_handler_stays : ((handlerSystem Nat Nat).guard Keeps).Reachable oneEach ∧
    oneEach.1.perform (.removeUnavailable 8) = (some false, oneEach.1) ∧ ¬Follows oneEach (.removeUnavailable 8) := by
  refine ⟨oneEach_reachable, rfl, fun h => ?_⟩
  exact absurd h.1 (by decide)

end AeronGo.Conductor
