import Mathlib.Init

/-!
# Computations that end alike

Two computations that can fail end alike if they both fail, in the same way, or both return, with related
results. The rules are those of a simulation: results of related steps are related, and so are those of two
loops over the same list.
-/

namespace Machine

universe u

variable {ε α : Type} {σ τ σ' τ' : Type u}

inductive Alike (R : σ → τ → Prop) : Except ε σ → Except ε τ → Prop
  | error (e : ε) : Alike R (.error e) (.error e)
  | ok {s : σ} {t : τ} : R s t → Alike R (.ok s) (.ok t)

namespace Alike

theorem bind {R : σ → τ → Prop} {R' : σ' → τ' → Prop} {x : Except ε σ} {y : Except ε τ} {f : σ → Except ε σ'}
    {g : τ → Except ε τ'} (h : Alike R x y) (hnext : ∀ s t, R s t → Alike R' (f s) (g t)) :
    Alike R' (x >>= f) (y >>= g) := by
  cases h with
  | error e => exact .error e
  | ok hst => exact hnext _ _ hst

/-- The same computation before both. -/
theorem bind_same {R' : σ' → τ' → Prop} {x : Except ε σ} {f : σ → Except ε σ'} {g : σ → Except ε τ'}
    (hnext : ∀ s, Alike R' (f s) (g s)) : Alike R' (x >>= f) (x >>= g) := by
  cases x with
  | error e => exact .error e
  | ok s => exact hnext s

/-- **Two loops over one list**, by induction on it: each step keeps the relation. -/
theorem foldlM {R : σ → τ → Prop} {f : σ → α → Except ε σ} {g : τ → α → Except ε τ} {xs : List α}
    (hstep : ∀ a ∈ xs, ∀ s t, R s t → Alike R (f s a) (g t a)) {s : σ} {t : τ} (h : R s t) :
    Alike R (xs.foldlM f s) (xs.foldlM g t) := by
  induction xs generalizing s t with
  | nil => exact .ok h
  | cons a xs ih =>
    rw [List.foldlM_cons, List.foldlM_cons]
    refine (hstep a List.mem_cons_self s t h).bind fun s' t' h' => ?_
    exact ih (fun b hb => hstep b (List.mem_cons_of_mem a hb)) h'

/-- What is read off related results alike. -/
theorem map_eq {ρ : Type u} {R : σ → τ → Prop} {x : Except ε σ} {y : Except ε τ} {f : σ → ρ} {g : τ → ρ}
    (h : Alike R x y) (hread : ∀ s t, R s t → f s = g t) : x.map f = y.map g := by
  cases h with
  | error e => rfl
  | ok hst => exact congrArg Except.ok (hread _ _ hst)

end Alike

end Machine
