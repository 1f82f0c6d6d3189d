import Mathlib.Data.List.Basic
import Mathlib.Logic.Function.Basic

/-!
# Machines that keep a state for every key

An input has a key and changes the state of that key only; what it puts out has that key too. Whatever
the inputs of other keys are and wherever they come in between, the outputs of a key are those of its own
inputs, run on its own state alone (`outputs_filter`).
-/

namespace Machine.Keyed

variable {κ α β ω : Type} [DecidableEq κ] (key : α → κ) (step : β → α → β × List ω)

/-- What the inputs put out, each output with its key. -/
def outputs (state : κ → β) : List α → List (κ × ω)
  | [] => []
  | a :: inputs => (step (state (key a)) a).2.map (Prod.mk (key a)) ++
      outputs (Function.update state (key a) (step (state (key a)) a).1) inputs

/-- What the inputs of one key put out. -/
def trace (b : β) : List α → List ω
  | [] => []
  | a :: inputs => (step b a).2 ++ trace (step b a).1 inputs

/-- **The outputs of a key are those of its own inputs.** -/
theorem outputs_filter (k : κ) (state : κ → β) (inputs : List α) :
    (outputs key step state inputs).filter (fun o => decide (o.1 = k)) =
      (trace step (state k) (inputs.filter fun a => decide (key a = k))).map (Prod.mk k) := by
  induction inputs generalizing state with
  | nil => rfl
  | cons a inputs ih =>
    rw [outputs, List.filter_append, ih]
    by_cases hk : key a = k
    · have hown : ((step (state (key a)) a).2.map (Prod.mk (key a))).filter (fun o => decide (o.1 = k)) =
          (step (state k) a).2.map (Prod.mk k) := by
        rw [hk]
        exact List.filter_eq_self.mpr (by simp)
      rw [List.filter_cons_of_pos (by simpa using hk), trace, List.map_append, hown, hk, Function.update_self]
    · have hother : ((step (state (key a)) a).2.map (Prod.mk (key a))).filter (fun o => decide (o.1 = k)) = [] := by
        rw [List.filter_eq_nil_iff]
        intro o ho
        obtain ⟨_, _, rfl⟩ := List.mem_map.mp ho
        simpa using hk
      rw [List.filter_cons_of_neg (by simpa using hk), hother, List.nil_append,
        Function.update_of_ne (Ne.symm hk)]

/-- Inputs of one key put out under that key only. -/
theorem outputs_of_key {k : κ} {inputs : List α} (h : ∀ a ∈ inputs, key a = k) (state : κ → β) :
    outputs key step state inputs = (trace step (state k) inputs).map (Prod.mk k) := by
  induction inputs generalizing state with
  | nil => rfl
  | cons a inputs ih =>
    rw [outputs, ih fun b hb => h b (List.mem_cons_of_mem a hb), h a List.mem_cons_self, Function.update_self, trace,
      List.map_append]

end Machine.Keyed
