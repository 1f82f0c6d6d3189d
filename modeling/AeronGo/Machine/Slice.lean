import Mathlib.Data.List.DropRight

/-!
# Loops over a slice that shrinks

A loop over a slice reads as many entries as the slice had when it began. An entry that is removed is
overwritten with the last one, and the slice gets shorter; what lies behind its end reads as nothing. So
a loop that removes entries does not see those that were moved into their place.
-/

namespace Machine.Slice

variable {α : Type}

/-- Overwrite an entry with the last one, and shorten the slice. -/
def swapRemove (xs : List α) (i : Nat) : List α :=
  match xs.getLast? with
  | none => []
  | some last => (xs.set i last).dropLast

/-- The entries before the removed one stay, the last of those behind it takes its place. -/
theorem swapRemove_append (front back : List α) (x : α) :
    swapRemove (front ++ x :: back) front.length = front ++ (back.getLast?.toList ++ back.dropLast) := by
  cases hback : back.getLast? with
  | none =>
    rw [List.getLast?_eq_none_iff] at hback
    subst hback
    simp [swapRemove]
  | some last =>
    have hne : back ≠ [] := by
      rintro rfl
      cases hback
    have hlast : (front ++ x :: back).getLast? = some last := by
      rw [List.getLast?_append, List.getLast?_cons, hback]
      rfl
    simp only [swapRemove, hlast, List.set_append_right _ _ (Nat.le_refl _), Nat.sub_self, List.set_cons_zero,
      Option.toList_some, List.cons_append, List.nil_append]
    rw [List.dropLast_append_of_ne_nil (List.cons_ne_nil _ _), List.dropLast_cons_of_ne_nil hne]

/-- Nothing else is removed. -/
theorem swapRemove_perm (front back : List α) (x : α) :
    (swapRemove (front ++ x :: back) front.length).Perm (front ++ back) := by
  rw [swapRemove_append]
  refine List.Perm.append_left front ?_
  cases hback : back.getLast? with
  | none =>
    rw [List.getLast?_eq_none_iff] at hback
    subst hback
    exact List.Perm.refl _
  | some last =>
    have hsplit : back.dropLast ++ [last] = back := List.dropLast_append_getLast? last hback
    nth_rewrite 2 [← hsplit]
    exact List.perm_append_comm

theorem getElem?_middle (front back : List α) (x : α) : (front ++ x :: back)[front.length]? = some x := by
  rw [List.getElem?_append_right (Nat.le_refl _), Nat.sub_self]
  rfl

/-- The removed entry and what is left of the slice. -/
theorem cons_swapRemove_perm {xs : List α} {i : Nat} {x : α} (h : xs[i]? = some x) :
    (x :: swapRemove xs i).Perm xs := by
  obtain ⟨hlt, rfl⟩ := List.getElem?_eq_some_iff.mp h
  have hperm := swapRemove_perm (xs.take i) (xs.drop (i + 1)) xs[i]
  have hmiddle : (xs.take i ++ xs[i] :: xs.drop (i + 1)).Perm (xs[i] :: (xs.take i ++ xs.drop (i + 1))) :=
    List.perm_middle
  rw [List.getElem_cons_drop, List.take_append_drop] at hperm hmiddle
  rw [List.length_take_of_le (Nat.le_of_lt hlt)] at hperm
  exact (hperm.cons _).trans hmiddle.symm

/-- The loop that takes out the first entry that matches, and puts the last one in its place. -/
def removeFirst (isMatch : α → Bool) (xs : List α) : Option α × List α :=
  match xs.findIdx? isMatch with
  | none => (none, xs)
  | some i => (xs[i]?, swapRemove xs i)

/-- An entry that matches goes, if there is one, and the others stay in some order. -/
theorem removeFirst_cases (isMatch : α → Bool) (xs : List α) :
    (removeFirst isMatch xs = (none, xs) ∧ ∀ x ∈ xs, isMatch x = false) ∨
    ∃ x rest, removeFirst isMatch xs = (some x, rest) ∧ isMatch x = true ∧ (x :: rest).Perm xs := by
  cases hfound : xs.findIdx? isMatch with
  | none => exact .inl ⟨by rw [removeFirst, hfound], List.findIdx?_eq_none_iff.mp hfound⟩
  | some i =>
    obtain ⟨hlt, hmatch, _⟩ := List.findIdx?_eq_some_iff_getElem.mp hfound
    have hx : xs[i]? = some xs[i] := List.getElem?_eq_getElem hlt
    exact .inr ⟨xs[i], swapRemove xs i, by simp only [removeFirst, hfound, hx], hmatch, cons_swapRemove_perm hx⟩

/-! ## Sweeping -/

/-- What is left of a slice by a loop that removes every entry with a property as it reads it. The loop has
read `front` and not yet `back`. -/
def sweep (p : α → Bool) : List α → List α → List α
  | front, [] => front
  | front, x :: back =>
    if p x then sweep p (front ++ back.getLast?.toList) back.dropLast else sweep p (front ++ [x]) back
termination_by _ back => back.length

/-- The entries that the removals move forward have not the property: as many of the last ones as there are
removals but one. -/
def Orderly (p : α → Bool) (xs : List α) : Prop := ∀ x ∈ xs.rtake (xs.countP p - 1), p x = false

instance (p : α → Bool) (xs : List α) : Decidable (Orderly p xs) := inferInstanceAs (Decidable (∀ x ∈ _, _))

variable {p : α → Bool}

/-- Entries without the property stay, and none is added. -/
theorem mem_sweep {x : α} {front back : List α} (hx : p x = false) :
    x ∈ sweep p front back ↔ x ∈ front ∨ x ∈ back := by
  induction front, back using sweep.induct (p := p) with
  | case1 front => simp [sweep]
  | case2 front y back hy ih =>
    have hne : x ≠ y := by
      rintro rfl
      rw [hx] at hy
      cases hy
    rw [sweep, if_pos hy, ih]
    cases hback : back.getLast? with
    | none =>
      rw [List.getLast?_eq_none_iff] at hback
      simp [hback, hne]
    | some last =>
      have hsplit : back.dropLast ++ [last] = back := List.dropLast_append_getLast? last hback
      nth_rewrite 2 [← hsplit]
      simp only [Option.toList_some, List.mem_append, List.mem_cons, hne, false_or]
      tauto
  | case3 front y back hy ih =>
    rw [sweep, if_neg hy, ih]
    simp only [List.mem_append, List.mem_cons]
    tauto

theorem rtake_cons {x : α} {xs : List α} {n : Nat} (hn : n ≤ xs.length) : (x :: xs).rtake n = xs.rtake n := by
  rw [List.rtake, List.rtake, List.length_cons, Nat.succ_sub hn, List.drop_succ_cons]

theorem orderly_cons_of_not {x : α} {xs : List α} (hx : p x = false) : Orderly p (x :: xs) ↔ Orderly p xs := by
  have hle : xs.countP p - 1 ≤ xs.length := Nat.le_trans (Nat.sub_le _ _) List.countP_le_length
  rw [Orderly, List.countP_cons_of_neg (by rw [hx]; exact Bool.false_ne_true), rtake_cons hle, Orderly]

theorem orderly_of_countP_le {xs : List α} (h : xs.countP p ≤ 1) : Orderly p xs := by
  intro x hx
  rw [Nat.sub_eq_zero_of_le h, List.rtake_zero] at hx
  cases hx

theorem orderly_nil : Orderly p [] := orderly_of_countP_le (Nat.zero_le _)

theorem orderly_cons_concat {x last : α} {xs : List α} (hx : p x = true) :
    Orderly p (x :: (xs ++ [last])) ↔ p last = false ∧ Orderly p xs := by
  have hle : (xs ++ [last]).countP p ≤ (xs ++ [last]).length := List.countP_le_length
  rw [Orderly, List.countP_cons_of_pos hx, Nat.add_sub_cancel, rtake_cons hle, List.countP_append]
  cases hlast : p last with
  | true =>
    -- the last entry is the first that is moved
    rw [List.countP_singleton, if_pos hlast, List.rtake_concat_succ]
    refine iff_of_false ?_ (by simp)
    intro hall
    rw [hall last (by simp)] at hlast
    cases hlast
  | false =>
    rw [List.countP_singleton, if_neg (by rw [hlast]; exact Bool.false_ne_true), Nat.add_zero]
    cases hcount : xs.countP p with
    | zero =>
      rw [List.rtake_zero]
      exact iff_of_true nofun ⟨rfl, orderly_of_countP_le (hcount ▸ Nat.zero_le _)⟩
    | succ n =>
      rw [List.rtake_concat_succ, List.forall_mem_append, List.forall_mem_singleton, Orderly, hcount,
        Nat.add_sub_cancel, and_comm, hlast]

/-- The loop leaves no entry with the property exactly if none of them is moved. -/
theorem sweep_orderly {front back : List α} :
    (∀ x ∈ sweep p front back, p x = false) ↔ (∀ x ∈ front, p x = false) ∧ Orderly p back := by
  induction front, back using sweep.induct (p := p) with
  | case1 front =>
    rw [sweep]
    exact (and_iff_left orderly_nil).symm
  | case2 front y back hy ih =>
    rw [sweep, if_pos hy, ih]
    rcases List.eq_nil_or_concat back with rfl | ⟨xs, last, rfl⟩
    · have hone : Orderly p [y] := orderly_of_countP_le List.countP_le_length
      simp [hone, orderly_nil]
    · rw [List.concat_eq_append, orderly_cons_concat hy, List.getLast?_concat, List.dropLast_concat,
        List.forall_mem_append, Option.toList_some, List.forall_mem_singleton, and_assoc]
  | case3 front y back hy ih =>
    have hy' : p y = false := by simpa using hy
    rw [sweep, if_neg hy, ih, orderly_cons_of_not hy', List.forall_mem_append, List.forall_mem_singleton,
      and_assoc, and_iff_right hy']

theorem sweep_nil_orderly {xs : List α} : (∀ x ∈ sweep p [] xs, p x = false) ↔ Orderly p xs := by
  rw [sweep_orderly]
  exact and_iff_right nofun

/-! ## Loops -/

section Loop

variable {σ ε : Type} {entries : σ → List α} {f : σ → Nat → Except ε σ} {I Q : σ → Prop} {R : σ → σ → Prop}

/-- The body of a loop over a slice of the state: it does nothing at an entry without the property, and removes
one with it, or else fails for a reason `Q`. -/
structure Sweeps (entries : σ → List α) (p : α → Bool) (f : σ → Nat → Except ε σ) (I Q : σ → Prop)
    (R : σ → σ → Prop) : Prop where
  refl : ∀ s, R s s
  trans : ∀ s t u, R s t → R t u → R s u
  back : ∀ s t, R s t → Q t → Q s
  pass : ∀ s i, (∀ x, (entries s)[i]? = some x → p x = false) → f s i = .ok s
  hit : ∀ s front x back, I s → entries s = front ++ x :: back → p x = true →
    (∃ t, f s front.length = .ok t ∧ I t ∧ R s t ∧ entries t = swapRemove (entries s) front.length) ∨
      (∃ e, f s front.length = .error e) ∧ Q s

namespace Sweeps

/-- Indices behind the end of the slice. -/
theorem beyond (h : Sweeps entries p f I Q R) {s : σ} {k : Nat} (hk : (entries s).length ≤ k) (m : Nat) :
    (List.range' k m).foldlM f s = .ok s := by
  induction m generalizing k with
  | zero => rfl
  | succ m ih =>
    have hpass : f s k = .ok s := by
      refine h.pass s k fun x hx => ?_
      rw [List.getElem?_eq_none hk] at hx
      cases hx
    rw [List.range'_succ, List.foldlM_cons, hpass]
    exact ih (Nat.le_succ_of_le hk)

/-- The loop from an index on. -/
theorem loop_from (h : Sweeps entries p f I Q R) {front back : List α} {s : σ} (hs : I s)
    (hentries : entries s = front ++ back) {k m : Nat} (hm : back.length ≤ m) (hle : front.length ≤ k) (hk : back ≠ [] → k = front.length) :
    (∃ t, (List.range' k m).foldlM f s = .ok t ∧ I t ∧ R s t ∧ entries t = sweep p front back) ∨
      (∃ e, (List.range' k m).foldlM f s = .error e) ∧ Q s := by
  induction front, back using sweep.induct (p := p) generalizing s k m with
  | case1 front =>
    rw [List.append_nil] at hentries
    refine .inl ⟨s, h.beyond (hentries ▸ hle) m, hs, h.refl s, ?_⟩
    rw [hentries, sweep]
  | case2 front x back hx ih =>
    obtain ⟨m, rfl⟩ : ∃ n, m = n + 1 := Nat.exists_eq_succ_of_ne_zero (by rintro rfl; cases hm)
    obtain rfl := hk (List.cons_ne_nil _ _)
    rw [List.range'_succ, List.foldlM_cons, sweep, if_pos hx]
    rcases h.hit s front x back hs hentries hx with ⟨t, hf, ht, hR, hrest⟩ | ⟨⟨e, hf⟩, hQ⟩
    · have hsplit : entries t = (front ++ back.getLast?.toList) ++ back.dropLast := by
        rw [hrest, hentries, swapRemove_append, List.append_assoc]
      have hlength : back.dropLast.length ≤ m := by
        rw [List.length_dropLast]
        exact Nat.le_trans (Nat.sub_le _ _) (Nat.le_of_succ_le_succ hm)
      rw [hf]
      have hnext := ih ht hsplit hlength (k := front.length + 1) ?_ ?_
      · rcases hnext with ⟨u, hu, hIu, hRu, hentriesu⟩ | ⟨⟨e, he⟩, hQ⟩
        · exact .inl ⟨u, hu, hIu, h.trans _ _ _ hR hRu, hentriesu⟩
        · exact .inr ⟨⟨e, he⟩, h.back _ _ hR hQ⟩
      · rw [List.length_append]
        exact Nat.add_le_add_left (by cases back.getLast? <;> simp) _
      · intro hne
        rcases List.eq_nil_or_concat back with rfl | ⟨xs, last, rfl⟩
        · exact absurd rfl hne
        · simp
    · rw [hf]
      exact .inr ⟨⟨e, rfl⟩, hQ⟩
  | case3 front x back hx ih =>
    obtain ⟨m, rfl⟩ : ∃ n, m = n + 1 := Nat.exists_eq_succ_of_ne_zero (by rintro rfl; cases hm)
    obtain rfl := hk (List.cons_ne_nil _ _)
    have hpass : f s front.length = .ok s := by
      refine h.pass s _ fun y hy => ?_
      rw [hentries, getElem?_middle] at hy
      cases hy
      simpa using hx
    rw [List.range'_succ, List.foldlM_cons, sweep, if_neg hx, hpass]
    refine ih hs (by rw [hentries, List.append_assoc]; rfl) (Nat.le_of_succ_le_succ hm) ?_ fun _ => ?_
    · rw [List.length_append]
      exact Nat.le_refl _
    · rw [List.length_append]
      rfl

/-- A loop over the whole slice. -/
theorem loop (h : Sweeps entries p f I Q R) {s : σ} (hs : I s) :
    (∃ t, (List.range (entries s).length).foldlM f s = .ok t ∧ I t ∧ R s t ∧ entries t = sweep p [] (entries s)) ∨
      (∃ e, (List.range (entries s).length).foldlM f s = .error e) ∧ Q s := by
  rw [List.range_eq_range']
  exact h.loop_from hs (List.nil_append _).symm (Nat.le_refl _) (Nat.zero_le _) fun _ => rfl

end Sweeps

end Loop

end Machine.Slice
