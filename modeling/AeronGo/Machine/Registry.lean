import Mathlib.Data.List.Nodup
import Mathlib.Data.List.Perm.Subperm

/-!
# Registrations and the objects they hand out

An entry has an id and, once its object is handed out, a reference to it; objects are numbered and stay, open or
closed. Closing an object removes its entry and is told once to whoever keeps the other side. `Kept` says that
the entries refer to the open objects, one to one, and that each closed object was told once. `Rows` says only that
ids are distinct and that each row has a property: rows may come, go and change in place.
-/

namespace Machine.Registry

/-! ## Rows with distinct ids -/

/-- No two rows have the same id, and each row has the property. -/
structure Rows {α : Type} (key : α → Int) (P : α → Prop) (xs : List α) : Prop where
  distinct : (xs.map key).Nodup
  each : ∀ x ∈ xs, P x

namespace Rows

variable {α : Type} {key : α → Int} {P Q : α → Prop} {xs ys front back : List α} {x x' : α}

theorem nil : Rows key P [] := ⟨List.nodup_nil, nofun⟩

theorem imp (h : Rows key P xs) (himp : ∀ x, P x → Q x) : Rows key Q xs :=
  ⟨h.distinct, fun x hx => himp x (h.each x hx)⟩

/-- Rows go. -/
theorem subperm (h : Rows key P xs) (hys : ys.Subperm xs) : Rows key P ys := by
  refine ⟨?_, fun y hy => h.each y (hys.subset hy)⟩
  obtain ⟨zs, hperm, hsublist⟩ := hys
  exact (hperm.map key).nodup_iff.mp ((hsublist.map key).nodup h.distinct)

/-- A row with a new id comes. -/
theorem append (h : Rows key P xs) (hnew : ∀ y ∈ xs, key y ≠ key x) (hx : P x) : Rows key P (xs ++ [x]) := by
  refine ⟨?_, fun y hy => ?_⟩
  · rw [List.map_append]
    refine List.nodup_append.mpr ⟨h.distinct, List.nodup_singleton _, fun i hi j hj => ?_⟩
    obtain ⟨y, hy, rfl⟩ := List.mem_map.mp hi
    rw [List.mem_singleton.mp hj]
    exact hnew y hy
  · rcases List.mem_append.mp hy with hy | hy
    · exact h.each y hy
    · rw [List.mem_singleton.mp hy]
      exact hx

/-- Rows change in place. -/
theorem map (h : Rows key P xs) {f : α → α} (hkey : ∀ x, key (f x) = key x) (hf : ∀ x ∈ xs, P x → P (f x)) :
    Rows key P (xs.map f) := by
  have hids : key ∘ f = key := funext hkey
  refine ⟨by rw [List.map_map, hids]; exact h.distinct, fun y hy => ?_⟩
  obtain ⟨x, hx, rfl⟩ := List.mem_map.mp hy
  exact hf x hx (h.each x hx)

/-- One row changes in place. -/
theorem replace (h : Rows key P (front ++ x :: back)) (hkey : key x' = key x) (hx : P x → P x') :
    Rows key P (front ++ x' :: back) := by
  refine ⟨?_, fun y hy => ?_⟩
  · have hdistinct := h.distinct
    rw [List.map_append, List.map_cons] at hdistinct ⊢
    rwa [hkey]
  · have heach := h.each
    simp only [List.mem_append, List.mem_cons] at hy heach
    rcases hy with hy | rfl | hy
    · exact heach y (.inl hy)
    · exact hx (heach x (.inr (.inl rfl)))
    · exact heach y (.inr (.inr hy))

end Rows

/-! ## Entries and objects -/

/-- `removed id` is how often the removal of an id was told. -/
structure Kept (entries : List (Int × Option Nat)) (objects : List (Int × Bool)) (removed : Int → Nat) : Prop where
  distinct : (entries.map Prod.fst).Nodup
  untold : ∀ e ∈ entries, removed e.1 = 0
  refers : ∀ (id : Int) (ref : Nat), (id, some ref) ∈ entries → objects[ref]? = some (id, false)
  held : ∀ (id : Int) (ref : Nat), objects[ref]? = some (id, false) → (id, some ref) ∈ entries
  told : ∀ (id : Int) (ref : Nat), objects[ref]? = some (id, true) → removed id = 1

namespace Kept

variable {entries entries' : List (Int × Option Nat)} {objects : List (Int × Bool)} {removed : Int → Nat}

theorem nil : Kept [] [] removed := by
  refine ⟨List.nodup_nil, nofun, nofun, ?_, ?_⟩ <;> intro id ref h <;> cases h

variable {id : Int}

/-- A new entry, with nothing handed out. -/
theorem add (h : Kept entries objects removed) (hnew : id ∉ entries.map Prod.fst) (hid : removed id = 0) :
    Kept (entries ++ [(id, none)]) objects removed := by
  refine ⟨?_, ?_, ?_, ?_, h.told⟩
  · rw [List.map_append, List.nodup_append]
    refine ⟨h.distinct, List.nodup_singleton _, ?_⟩
    rintro a ha b hb rfl
    obtain rfl : a = id := List.mem_singleton.mp hb
    exact hnew ha
  · intro e he
    rcases List.mem_append.mp he with he | he
    · exact h.untold e he
    · rw [List.mem_singleton.mp he]
      exact hid
  · intro i ref hi
    rcases List.mem_append.mp hi with hi | hi
    · exact h.refers i ref hi
    · cases List.mem_singleton.mp hi
  · intro i ref hi
    exact List.mem_append_left _ (h.held i ref hi)

section Objects

variable {α β : Type} {key : α → Int} {isClosed : α → Bool} {xs : List α} {f : β → Int × Option Nat} {es : List β}

/-- The object that an entry refers to. -/
theorem object (h : Kept (es.map f) (xs.map fun x => (key x, isClosed x)) removed) {e : β} (he : e ∈ es) {ref : Nat}
    (href : (f e).2 = some ref) : ∃ x, xs[ref]? = some x ∧ isClosed x = false ∧ key x = (f e).1 := by
  have hobject := h.refers (f e).1 ref (List.mem_map.mpr ⟨e, he, Prod.ext rfl href⟩)
  rw [List.getElem?_map] at hobject
  obtain ⟨x, hx, heq⟩ := Option.map_eq_some_iff.mp hobject
  obtain ⟨hkey, hopen⟩ := Prod.mk.inj heq
  exact ⟨x, hx, hopen, hkey⟩

/-- The entry of an open object. -/
theorem entry (h : Kept (es.map f) (xs.map fun x => (key x, isClosed x)) removed) {ref : Nat} {x : α}
    (hx : xs[ref]? = some x) (hopen : isClosed x = false) : ∃ e ∈ es, f e = (key x, some ref) :=
  List.mem_map.mp (h.held (key x) ref (by rw [List.getElem?_map, hx, Option.map_some, hopen]))

end Objects

theorem eq_of_mem (h : Kept entries objects removed) {a b : Option Nat} (ha : (id, a) ∈ entries)
    (hb : (id, b) ∈ entries) : a = b := by
  have := List.inj_on_of_nodup_map h.distinct ha hb rfl
  cases this
  rfl

/-- The entry gets its object. -/
theorem handOut (h : Kept entries objects removed) (hid : (id, none) ∈ entries) :
    Kept (entries.map fun e => if e.1 = id then (id, some objects.length) else e) (objects ++ [(id, false)]) removed := by
  have hfst : (entries.map fun e => if e.1 = id then (id, some objects.length) else e).map Prod.fst =
      entries.map Prod.fst := by
    rw [List.map_map]
    refine List.map_congr_left fun e _ => ?_
    show (if e.1 = id then (id, some objects.length) else e).1 = e.1
    split
    next he => exact he.symm
    next => rfl
  refine ⟨hfst ▸ h.distinct, ?_, ?_, ?_, ?_⟩
  · intro e he
    obtain ⟨e', he', heq⟩ := List.mem_map.mp (hfst ▸ List.mem_map_of_mem he)
    exact heq ▸ h.untold e' he'
  · intro i ref hi
    obtain ⟨e, he, heq⟩ := List.mem_map.mp hi
    split at heq
    next hi' =>
      cases heq
      rw [List.getElem?_append_right (Nat.le_refl _), Nat.sub_self]
      rfl
    next =>
      subst heq
      have hold := h.refers i ref he
      rwa [List.getElem?_append_left (List.getElem?_eq_some_iff.mp hold).1]
  · intro i ref hi
    by_cases hlt : ref < objects.length
    · rw [List.getElem?_append_left hlt] at hi
      have hmem := h.held i ref hi
      refine List.mem_map.mpr ⟨(i, some ref), hmem, if_neg ?_⟩
      rintro rfl
      cases h.eq_of_mem hid hmem
    · rw [List.getElem?_append_right (Nat.le_of_not_lt hlt)] at hi
      obtain ⟨hz, heq⟩ := List.getElem?_eq_some_iff.mp hi
      have href : ref = objects.length := by
        rw [List.length_singleton] at hz
        omega
      subst href
      simp only [Nat.sub_self, List.getElem_cons_zero, Prod.mk.injEq, and_true] at heq
      subst heq
      exact List.mem_map.mpr ⟨(id, none), hid, if_pos rfl⟩
  · intro i ref hi
    by_cases hlt : ref < objects.length
    · rw [List.getElem?_append_left hlt] at hi
      exact h.told i ref hi
    · rw [List.getElem?_append_right (Nat.le_of_not_lt hlt)] at hi
      have := List.mem_of_getElem? hi
      cases List.mem_singleton.mp this

/-- The object is closed, its entry removed and told. -/
theorem close (h : Kept entries objects removed) {ref : Nat} {removed' : Int → Nat}
    (hperm : ((id, some ref) :: entries').Perm entries) (htold : removed' id = removed id + 1)
    (hothers : ∀ i, i ≠ id → removed' i = removed i) :
    Kept entries' (objects.set ref (id, true)) removed' := by
  have hid : (id, some ref) ∈ entries := hperm.mem_iff.mp List.mem_cons_self
  have hsub : ∀ e ∈ entries', e ∈ entries := fun e he => hperm.mem_iff.mp (List.mem_cons_of_mem _ he)
  have hnodup : (id :: entries'.map Prod.fst).Nodup := (hperm.map Prod.fst).nodup_iff.mpr h.distinct
  obtain ⟨hnot, hrest⟩ := List.nodup_cons.mp hnodup
  have hne : ∀ e ∈ entries', e.1 ≠ id := fun e he heq => hnot (heq ▸ List.mem_map_of_mem he)
  have hobject := h.refers id ref hid
  refine ⟨hrest, ?_, ?_, ?_, ?_⟩
  · intro e he
    rw [hothers e.1 (hne e he)]
    exact h.untold e (hsub e he)
  · intro i r hi
    have hold := h.refers i r (hsub _ hi)
    have hr : ref ≠ r := by
      rintro rfl
      rw [hobject] at hold
      cases hold
      exact hne _ hi rfl
    rwa [List.getElem?_set_ne hr]
  · intro i r hi
    by_cases hr : ref = r
    · subst hr
      rw [List.getElem?_set_self (List.getElem?_eq_some_iff.mp hobject).1] at hi
      cases hi
    · rw [List.getElem?_set_ne hr] at hi
      have hmem := hperm.mem_iff.mpr (h.held i r hi)
      rcases List.mem_cons.mp hmem with heq | hmem
      · cases heq
        exact absurd rfl hr
      · exact hmem
  · intro i r hi
    by_cases hr : ref = r
    · subst hr
      rw [List.getElem?_set_self (List.getElem?_eq_some_iff.mp hobject).1] at hi
      cases hi
      rw [htold, h.untold _ hid]
    · rw [List.getElem?_set_ne hr] at hi
      have hold := h.told i r hi
      have hi' : i ≠ id := by
        rintro rfl
        rw [h.untold _ hid] at hold
        cases hold
      rw [hothers i hi']
      exact hold

/-- An object has its entry exactly while it is open, and its removal was told as often as it was closed. -/
theorem accounted (h : Kept entries objects removed) {ref : Nat} {closed : Bool}
    (hobject : objects[ref]? = some (id, closed)) :
    ((id, some ref) ∈ entries ↔ closed = false) ∧ removed id = closed.toNat := by
  cases closed with
  | true =>
    refine ⟨iff_of_false (fun he => ?_) Bool.noConfusion, h.told id ref hobject⟩
    cases hobject.symm.trans (h.refers id ref he)
  | false =>
    have he := h.held id ref hobject
    exact ⟨iff_of_true he rfl, h.untold _ he⟩

/-- Every object is closed and was told once exactly if no entry has an object. -/
theorem all_closed_iff (h : Kept entries objects removed) :
    (∀ (id : Int) (ref : Nat) (closed : Bool), objects[ref]? = some (id, closed) → closed = true ∧ removed id = 1) ↔
      ∀ e ∈ entries, e.2 = none := by
  constructor
  · rintro hall ⟨id, ref⟩ he
    cases ref with
    | none => rfl
    | some ref => cases (hall id ref false (h.refers id ref he)).1
  · intro hnone id ref closed hobject
    cases closed with
    | true => exact ⟨rfl, h.told id ref hobject⟩
    | false => cases hnone _ (h.held id ref hobject)

end Kept

end Machine.Registry
