import Mathlib.Order.Basic
import Mathlib.Tactic.Linarith

/-!
# Placing regions around a circle

Regions that are placed one behind the other on a line, each without crossing a multiple of `c`, and no
further than `c` from the first to the last, are apart from each other when the line is wound around a circle of
length `c`.
-/

namespace Machine

/-- A range of a buffer. -/
structure Region where
  start : Int
  length : Int
deriving DecidableEq, Repr

namespace Region

def Within (r : Region) (c : Int) : Prop := 0 ≤ r.start ∧ r.start + r.length ≤ c

def Apart (r s : Region) : Prop := r.start + r.length ≤ s.start ∨ s.start + s.length ≤ r.start

instance (r : Region) (c : Int) : Decidable (r.Within c) := inferInstanceAs (Decidable (_ ∧ _))

instance (r s : Region) : Decidable (r.Apart s) := inferInstanceAs (Decidable (_ ∨ _))

end Region

/-- A region lies at a place of the line, without crossing a multiple of `c`. -/
structure LiesAt (c place : Int) (r : Region) : Prop where
  start : place % c = r.start
  fits : r.start + r.length ≤ c
  length : 0 ≤ r.length

theorem LiesAt.within {c place : Int} {r : Region} (hc : 0 < c) (h : LiesAt c place r) : r.Within c := by
  refine ⟨?_, h.fits⟩
  rw [← h.start]
  exact Int.emod_nonneg _ (Int.ne_of_gt hc)

/-- Two regions on less than one turn. -/
theorem LiesAt.apart {c place place' : Int} {r r' : Region} (hc : 0 < c) (h : LiesAt c place r) (h' : LiesAt c place' r')
    (hbehind : place + r.length ≤ place') (hturn : place' + r'.length ≤ place + c) : r.Apart r' := by
  have hplace := Int.emod_add_mul_ediv place c
  have hplace' := Int.emod_add_mul_ediv place' c
  have hlt := Int.emod_lt_of_pos place hc
  have hnonneg := Int.emod_nonneg place' (Int.ne_of_gt hc)
  rw [h.start] at hplace hlt
  rw [h'.start] at hplace' hnonneg
  have hlength := h.length
  have hlength' := h'.length
  have hquotient : place / c ≤ place' / c := Int.ediv_le_ediv hc (by omega)
  rcases Int.lt_trichotomy (place' / c) (place / c + 1) with hsame | hnext | hlater
  · have heq : place' / c = place / c := by omega
    rw [heq] at hplace'
    exact .inl (by omega)
  · rw [hnext, Int.mul_add, Int.mul_one] at hplace'
    exact .inr (by omega)
  · -- two turns further is past the end
    have hfar : c * (place / c + 2) ≤ c * (place' / c) := Int.mul_le_mul_of_nonneg_left (by omega) (Int.le_of_lt hc)
    rw [Int.mul_add] at hfar
    omega

/-- Regions one behind the other from `lo` to `hi`. -/
inductive Placed (c : Int) : Int → List Region → Int → Prop
  | nil {lo hi : Int} : lo ≤ hi → Placed c lo [] hi
  | cons {lo place hi : Int} {r : Region} {rs : List Region} :
      lo ≤ place → LiesAt c place r → Placed c (place + r.length) rs hi → Placed c lo (r :: rs) hi

namespace Placed

variable {c lo hi : Int} {rs : List Region}

theorem le (h : Placed c lo rs hi) : lo ≤ hi := by
  induction h with
  | nil hle => exact hle
  | cons hlo hlies _ ih =>
    have hlength := hlies.length
    omega

theorem mem (h : Placed c lo rs hi) {r : Region} (hr : r ∈ rs) :
    ∃ place, lo ≤ place ∧ LiesAt c place r ∧ place + r.length ≤ hi := by
  induction h with
  | nil => cases hr
  | @cons lo place hi r' rs hlo hlies hrest ih =>
    have hlength := hlies.length
    rcases List.mem_cons.mp hr with rfl | hr
    · exact ⟨place, hlo, hlies, hrest.le⟩
    · obtain ⟨place', hplace', hlies', hend⟩ := ih hr
      exact ⟨place', by omega, hlies', hend⟩

theorem within (hc : 0 < c) (h : Placed c lo rs hi) : ∀ r ∈ rs, r.Within c := by
  intro r hr
  obtain ⟨_, _, hlies, _⟩ := h.mem hr
  exact hlies.within hc

/-- **Placed on one turn, regions are apart.** -/
theorem pairwise (hc : 0 < c) (h : Placed c lo rs hi) (hturn : hi ≤ lo + c) : rs.Pairwise Region.Apart := by
  induction h with
  | nil => exact List.Pairwise.nil
  | @cons lo place hi r rs hlo hlies hrest ih =>
    have hlength := hlies.length
    refine List.Pairwise.cons ?_ (ih (by omega))
    intro r' hr'
    obtain ⟨place', hplace', hlies', hend⟩ := hrest.mem hr'
    exact hlies.apart hc hlies' hplace' (by omega)

end Placed

end Machine
