import Mathlib.Logic.Basic

/-!
# Transition systems and their runs

A system is a set of initial states and a labelled step relation. `Reachable` is the one
induction of the development: a property that holds initially and that every step keeps holds of
every reachable state (`Reachable.invariant`). `guard` restricts the steps of a system, which is
how a run "all of whose steps meet a condition" is said; a guarded run is a run
(`Reachable.of_guard`). A system whose step is a partial function can be executed
(`reachable_of_exec`), so concrete runs are computed and not written out.
-/

namespace Machine

universe u v

/-- What holds of all parties, and of the state that one of them moves to, holds of all after the move. -/
theorem forall_moved {β : Type u} {P : β → Prop} {f : Nat → β} {i : Nat} {x : β} (h : ∀ j, P (f j)) (hx : P x)
    (j : Nat) : P (if j = i then x else f j) := by
  split
  · exact hx
  · exact h j

/-- Initial states and labelled steps. -/
structure System (σ : Type u) (α : Type v) where
  init : σ → Prop
  next : σ → α → σ → Prop

namespace System

variable {σ : Type u} {α : Type v} {S : System σ α}

/-- The states that runs of the system reach. -/
inductive Reachable (S : System σ α) : σ → Prop
  | start {s : σ} : S.init s → S.Reachable s
  | step {s t : σ} (a : α) : S.Reachable s → S.next s a t → S.Reachable t

/-- The system with only those steps that meet a condition on the state before and the label. -/
def guard (S : System σ α) (P : σ → α → Prop) : System σ α where
  init := S.init
  next s a t := P s a ∧ S.next s a t

/-- What holds initially and survives every step holds of every reachable state. -/
theorem Reachable.invariant {I : σ → Prop} (hinit : ∀ s, S.init s → I s)
    (hstep : ∀ s a t, I s → S.next s a t → I t) {s : σ} (h : S.Reachable s) : I s := by
  induction h with
  | start h => exact hinit _ h
  | step a _ hn ih => exact hstep _ a _ ih hn

/-- A step may also use that the state it starts from is reachable. -/
theorem Reachable.invariant_of_reachable {I : σ → Prop} (hinit : ∀ s, S.init s → I s)
    (hstep : ∀ s a t, S.Reachable s → I s → S.next s a t → I t) {s : σ} (h : S.Reachable s) :
    I s := by
  induction h with
  | start h => exact hinit _ h
  | step a hs hn ih => exact hstep _ a _ hs ih hn

/-- A run whose steps meet the condition is a run. -/
theorem Reachable.of_guard {P : σ → α → Prop} {s : σ} (h : (S.guard P).Reachable s) :
    S.Reachable s := by
  induction h with
  | start h => exact .start h
  | step a _ hn ih => exact .step a ih hn.2

/-- The runs that go on from a state. -/
def after (S : System σ α) (s : σ) : System σ α where
  init := (· = s)
  next := S.next

theorem Reachable.trans {s t : σ} (hs : S.Reachable s) (ht : (S.after s).Reachable t) :
    S.Reachable t := by
  induction ht with
  | start h => exact h ▸ hs
  | step a _ hn ih => exact .step a ih hn

/-- A reflexive and transitive relation that every step from a reachable state respects relates a
reachable state to all that follow it. -/
theorem Reachable.relates {R : σ → σ → Prop} (hrefl : ∀ s, R s s)
    (htrans : ∀ s t u, R s t → R t u → R s u)
    (hstep : ∀ s a t, S.Reachable s → S.next s a t → R s t) {s t : σ} (hs : S.Reachable s)
    (ht : (S.after s).Reachable t) : R s t := by
  induction ht with
  | start h => exact h ▸ hrefl _
  | step a ht hn ih => exact htrans _ _ _ ih (hstep _ a _ (hs.trans ht) hn)

/-- The system of a partial step function. -/
def ofStep (init : σ → Prop) (step : σ → α → Option σ) : System σ α where
  init := init
  next s a t := step s a = some t

/-- Execute a list of labels. -/
def exec (step : σ → α → Option σ) : σ → List α → Option σ
  | s, [] => some s
  | s, a :: as => (step s a).bind fun t => exec step t as

theorem reachable_of_exec {init : σ → Prop} {step : σ → α → Option σ} {s t : σ} {as : List α}
    (hs : (ofStep init step).Reachable s) (h : exec step s as = some t) :
    (ofStep init step).Reachable t := by
  induction as generalizing s with
  | nil => cases h; exact hs
  | cons a as ih =>
    obtain ⟨r, hr, hrest⟩ := Option.bind_eq_some_iff.mp h
    exact ih (hs.step a hr) hrest

/-- Executing only steps that meet a condition reaches what the guarded system reaches. -/
theorem reachable_guard_of_exec {init : σ → Prop} {step : σ → α → Option σ} {P : σ → α → Prop}
    [∀ s a, Decidable (P s a)] {s t : σ} {as : List α}
    (hs : ((ofStep init step).guard P).Reachable s)
    (h : exec (fun s a => if P s a then step s a else none) s as = some t) :
    ((ofStep init step).guard P).Reachable t := by
  induction as generalizing s with
  | nil => cases h; exact hs
  | cons a as ih =>
    obtain ⟨r, hr, hrest⟩ := Option.bind_eq_some_iff.mp h
    by_cases hp : P s a
    · exact ih (hs.step a ⟨hp, (if_pos hp).symm.trans hr⟩) hrest
    · exact nomatch (if_neg hp).symm.trans hr

/-- An executed run whose last state passes a test reaches a state that passes it. -/
theorem exists_reachable (init : σ → Prop) (step : σ → α → Option σ) {s : σ} (hs : init s)
    (as : List α) (q : σ → Bool) (h : (exec step s as).any q = true) :
    ∃ t, (ofStep init step).Reachable t ∧ q t = true := by
  obtain ⟨t, ht, hq⟩ := (Option.any_eq_true _ _).mp h
  exact ⟨t, reachable_of_exec (.start hs) ht, hq⟩

theorem exists_reachable_guard (init : σ → Prop) (step : σ → α → Option σ) (P : σ → α → Prop)
    [∀ s a, Decidable (P s a)] {s : σ} (hs : init s) (as : List α) (q : σ → Bool)
    (h : (exec (fun s a => if P s a then step s a else none) s as).any q = true) :
    ∃ t, ((ofStep init step).guard P).Reachable t ∧ q t = true := by
  obtain ⟨t, ht, hq⟩ := (Option.any_eq_true _ _).mp h
  exact ⟨t, reachable_guard_of_exec (.start hs) ht, hq⟩

end System

end Machine
