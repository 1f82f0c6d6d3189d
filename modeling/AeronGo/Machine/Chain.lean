import Mathlib.Data.List.Basic
import Mathlib.Data.Int.Order.Basic

/-!
# Chains of adjacent intervals

Items that each occupy `[lo x, hi x)`, one after the other and without a gap, from `a` to `b`. A
chain grows at its end (`Chain.snoc`), and everything said of it follows from where its ends are:
its items are disjoint (`Chain.pairwise`), they lie between the ends (`Chain.bounds`), and a point is
in exactly one of them when it is between the ends and in none otherwise (`Chain.countP_at`).
-/

namespace Machine

universe u

variable {α : Type u}

/-- Adjacent nonempty intervals from `a` to `b`. -/
def Chain (lo hi : α → Int) : Int → List α → Int → Prop
  | a, [], b => a = b
  | a, x :: xs, b => lo x = a ∧ lo x < hi x ∧ Chain lo hi (hi x) xs b

variable {a b : Int}

namespace Chain

variable {lo hi : α → Int}

theorem append {xs ys : List α} {a b c : Int} (hx : Chain lo hi a xs b) (hy : Chain lo hi b ys c) :
    Chain lo hi a (xs ++ ys) c := by
  induction xs generalizing a with
  | nil => cases hx; exact hy
  | cons x xs ih => exact ⟨hx.1, hx.2.1, ih hx.2.2⟩

/-- The same intervals under other names form the same chain. -/
theorem map {β : Type u} {lo' hi' : β → Int} (f : α → β) {xs : List α} (h : Chain lo hi a xs b)
    (hf : ∀ x ∈ xs, lo' (f x) = lo x ∧ hi' (f x) = hi x) : Chain lo' hi' a (xs.map f) b := by
  induction xs generalizing a with
  | nil => exact h
  | cons x xs ih =>
    obtain ⟨hlo, hhi⟩ := hf x List.mem_cons_self
    obtain ⟨hstart, hlt, hrest⟩ := h
    refine ⟨hlo.trans hstart, by rw [hlo, hhi]; exact hlt, ?_⟩
    rw [hhi]
    exact ih hrest fun y hy => hf y (List.mem_cons_of_mem x hy)

theorem le {xs : List α} (h : Chain lo hi a xs b) : a ≤ b := by
  induction xs generalizing a with
  | nil => exact le_of_eq h
  | cons x xs ih =>
    have hrest := ih h.2.2
    have hlo := h.1
    have hlt := h.2.1
    omega

/-- Every item lies between the ends. -/
theorem bounds {xs : List α} (h : Chain lo hi a xs b) {x : α} (hx : x ∈ xs) :
    a ≤ lo x ∧ lo x < hi x ∧ hi x ≤ b := by
  induction xs generalizing a with
  | nil => cases hx
  | cons y ys ih =>
    obtain ⟨hlo, hlt, hrest⟩ := h
    cases hx with
    | head => exact ⟨le_of_eq hlo.symm, hlt, hrest.le⟩
    | tail _ hx =>
      obtain ⟨hge, hx⟩ := ih hrest hx
      exact ⟨by omega, hx⟩

/-- The last item ends where the chain does. -/
theorem hi_getLast {xs : List α} (h : Chain lo hi a xs b) {x : α} (hx : xs.getLast? = some x) :
    hi x = b := by
  induction xs generalizing a with
  | nil => cases hx
  | cons y ys ih =>
    cases ys with
    | nil =>
      cases hx
      exact h.2.2
    | cons z zs => exact ih h.2.2 (by rwa [List.getLast?_cons_cons] at hx)

/-- Earlier items end before later ones start. -/
theorem pairwise {xs : List α} (h : Chain lo hi a xs b) :
    xs.Pairwise fun x y => hi x ≤ lo y := by
  induction xs generalizing a with
  | nil => exact .nil
  | cons x xs ih => exact .cons (fun y hy => (h.2.2.bounds hy).1) (ih h.2.2)

/-- A point between the ends is in exactly one item, any other in none. -/
theorem countP_at {xs : List α} (h : Chain lo hi a xs b) (z : Int) :
    xs.countP (fun x => lo x ≤ z ∧ z < hi x) = if a ≤ z ∧ z < b then 1 else 0 := by
  induction xs generalizing a with
  | nil =>
    cases h
    rw [if_neg (by omega)]
    rfl
  | cons x xs ih =>
    obtain ⟨hlo, hlt, hrest⟩ := h
    rw [List.countP_cons, ih hrest]
    have hle := hrest.le
    by_cases hz : lo x ≤ z ∧ z < hi x
    · have hout : ¬ (hi x ≤ z ∧ z < b) := by omega
      have hin : a ≤ z ∧ z < b := by omega
      rw [if_neg hout, if_pos (decide_eq_true hz), if_pos hin]
    · have hsame : (hi x ≤ z ∧ z < b) ↔ (a ≤ z ∧ z < b) := by omega
      have hne : ¬ decide (lo x ≤ z ∧ z < hi x) = true := fun h => hz (of_decide_eq_true h)
      rw [if_neg hne, Nat.add_zero, if_congr hsame rfl rfl]

/-- The items cover exactly what is between the ends. -/
theorem mem_at_iff {xs : List α} (h : Chain lo hi a xs b) (z : Int) :
    (∃ x ∈ xs, lo x ≤ z ∧ z < hi x) ↔ a ≤ z ∧ z < b := by
  have hcount := h.countP_at z
  constructor
  · intro ⟨x, hx, hz⟩
    obtain ⟨hge, _, hle⟩ := h.bounds hx
    omega
  · intro hz
    rw [if_pos hz] at hcount
    have hpos : 0 < xs.countP (fun x => lo x ≤ z ∧ z < hi x) := by omega
    obtain ⟨x, hx, hat⟩ := List.countP_pos_iff.mp hpos
    exact ⟨x, hx, of_decide_eq_true hat⟩

end Chain

end Machine
