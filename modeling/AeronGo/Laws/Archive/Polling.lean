import AeronGo.Archive.Pollers
import AeronGo.Laws.Archive.Queue
import AeronGo.Laws.Reassembly

/-!
# Laws of polling

What one poll of the queue can do: it passes fragments, and it ends because the handler breaks or aborts,
or without either at the limit or at the end of the term (`pollTerm_ends`). A poll that reads nothing has
passed padding up to where the term ends, so the next one is nearer to the next fragment; fragments that
have arrived are read after finitely many polls (`polling_induction`).
-/

namespace AeronGo.Archive

open LogBuffer
open Image (ControlledPollAction)
open Pollers (Turn)

variable {σ : Type}

/-! ## Fragments -/

/-- The fragments among items. -/
def fragments : List Item → List Piece
  | [] => []
  | .fragment flags payload :: rest => ⟨flags, payload⟩ :: fragments rest
  | .padding :: rest => fragments rest
  | .termEnd :: rest => fragments rest

@[simp] theorem fragments_append (xs ys : List Item) : fragments (xs ++ ys) = fragments xs ++ fragments ys := by
  induction xs with
  | nil => rfl
  | cons x xs ih =>
    cases x with
    | fragment flags payload => exact congrArg (⟨flags, payload⟩ :: ·) ih
    | padding | termEnd => exact ih

theorem fragments_padding (k : Nat) (rest : List Item) :
    fragments (List.replicate k .padding ++ rest) = fragments rest := by
  induction k with
  | zero => rfl
  | succ k ih => exact ih

theorem fragments_enterTerm (items : List Item) : fragments (enterTerm items) = fragments items := by
  induction items with
  | nil => rfl
  | cons x xs ih =>
    cases x with
    | fragment flags payload => rfl
    | padding => rfl
    | termEnd => exact ih

/-- The items before the first fragment. -/
def lead : List Item → Nat
  | [] => 0
  | .fragment _ _ :: _ => 0
  | .padding :: rest => lead rest + 1
  | .termEnd :: rest => lead rest + 1

theorem lead_append {xs : List Item} (h : fragments xs ≠ []) (ys : List Item) : lead (xs ++ ys) = lead xs := by
  induction xs with
  | nil => exact absurd rfl h
  | cons x xs ih =>
    cases x with
    | fragment flags payload => rfl
    | padding | termEnd => exact congrArg (· + 1) (ih h)

theorem lead_padding (k : Nat) (rest : List Item) : lead (List.replicate k .padding ++ rest) = lead rest + k := by
  induction k with
  | zero => rfl
  | succ k ih => exact congrArg (· + 1) ih

theorem lead_enterTerm_le (items : List Item) : lead (enterTerm items) ≤ lead items := by
  induction items with
  | nil => exact Nat.le_refl _
  | cons x xs ih =>
    cases x with
    | fragment flags payload | padding => exact Nat.le_refl _
    | termEnd => exact Nat.le_succ_of_le ih

/-! ## One poll -/

/-- A handler goes through fragments, one after the other, without an abort or a break. -/
inductive Ran (handler : Handler σ) : σ → List Piece → σ → Prop
  | nil {st : σ} : Ran handler st [] st
  | cons {st st₁ st₂ : σ} {p : Piece} {pieces : List Piece} {action : ControlledPollAction} :
      handler st p.flags p.payload = (action, st₁) → action ≠ .abort ∧ action ≠ .break → Ran handler st₁ pieces st₂ →
      Ran handler st (p :: pieces) st₂

/-- How a poll ends that passes fragments. -/
inductive Ends (handler : Handler σ) (limit : Nat) (st : σ) (items : List Item) :
    List Piece → List Item → σ → Prop
  | idle {rest : List Item} {k : Nat} : items = List.replicate k .padding ++ rest →
      (limit = 0 ∨ rest = [] ∨ ∃ later, rest = .termEnd :: later) → Ends handler limit st items [] rest st
  | ran {p : Piece} {passed : List Piece} {rest : List Item} {st' : σ} : Ran handler st (p :: passed) st' →
      Ends handler limit st items (p :: passed) rest st'
  | broke {p : Piece} {passed : List Piece} {rest : List Item} {st₁ st' : σ} : Ran handler st passed st₁ →
      handler st₁ p.flags p.payload = (.break, st') → Ends handler limit st items (passed ++ [p]) rest st'
  | aborted {p : Piece} {passed : List Piece} {rest : List Item} {st₁ st' : σ} : Ran handler st passed st₁ →
      handler st₁ p.flags p.payload = (.abort, st') →
      Ends handler limit st items passed (.fragment p.flags p.payload :: rest) st'

variable {items rest : List Item} {passed : List Piece}

/-- A fragment that did not end the poll, before what the rest of it did. -/
theorem Ends.cons {handler : Handler σ} {limit limit' : Nat} {st st₁ st' : σ} {items' : List Item} {p : Piece}
    {action : ControlledPollAction} (hp : handler st p.flags p.payload = (action, st₁))
    (hon : action ≠ .abort ∧ action ≠ .break) (h : Ends handler limit st₁ items passed rest st') :
    Ends handler limit' st items' (p :: passed) rest st' := by
  cases h with
  | idle => exact .ran (.cons hp hon .nil)
  | ran hran => exact .ran (.cons hp hon hran)
  | broke hran hbreak => exact .broke (.cons hp hon hran) hbreak
  | aborted hran habort => exact .aborted (.cons hp hon hran) habort

/-- A padding before what the rest of the poll did. -/
theorem Ends.padding {handler : Handler σ} {limit : Nat} {st st' : σ}
    (h : Ends handler limit st items passed rest st') : Ends handler limit st (.padding :: items) passed rest st' := by
  cases h with
  | @idle _ k hitems hstop => exact .idle (k := k + 1) (congrArg (Item.padding :: ·) hitems) hstop
  | ran hran => exact .ran hran
  | broke hran hbreak => exact .broke hran hbreak
  | aborted hran habort => exact .aborted hran habort

/-- **What a poll does** in a term. -/
theorem pollTerm_ends (handler : Handler σ) : ∀ (limit : Nat) (st : σ) (items : List Item),
    ∃ passed rest st', pollTerm handler limit st items = (passed.length, st', rest) ∧
      fragments items = passed ++ fragments rest ∧ Ends handler limit st items passed rest st' := by
  intro limit st items
  induction items generalizing limit st with
  | nil => exact ⟨[], [], st, pollTerm_nil handler limit st, rfl, .idle (k := 0) rfl (.inr (.inl rfl))⟩
  | cons item items ih =>
    cases limit with
    | zero => exact ⟨[], _, st, pollTerm_zero handler st _, rfl, .idle (k := 0) rfl (.inl rfl)⟩
    | succ limit =>
      cases item with
      | termEnd =>
        exact ⟨[], .termEnd :: items, st, by rw [pollTerm]; rfl, rfl, .idle (k := 0) rfl (.inr (.inr ⟨_, rfl⟩))⟩
      | padding =>
        obtain ⟨passed, rest, st', hpoll, hfragments, hends⟩ := ih (limit + 1) st
        exact ⟨passed, rest, st', by rw [pollTerm_padding, hpoll], hfragments, hends.padding⟩
      | fragment flags payload =>
        obtain ⟨action, st₁, hp⟩ : ∃ action st₁, handler st flags payload = (action, st₁) := ⟨_, _, rfl⟩
        by_cases habort : action = .abort
        · subst habort
          exact ⟨[], _, st₁, pollTerm_abort hp, rfl, .aborted (p := ⟨flags, payload⟩) .nil hp⟩
        by_cases hbreak : action = .break
        · subst hbreak
          refine ⟨[] ++ [⟨flags, payload⟩], items, st₁, pollTerm_break hp, rfl, .broke .nil hp⟩
        obtain ⟨passed, rest, st', hpoll, hfragments, hends⟩ := ih limit st₁
        refine ⟨⟨flags, payload⟩ :: passed, rest, st', ?_, congrArg (_ :: ·) hfragments, ?_⟩
        · rw [pollTerm_on hp ⟨habort, hbreak⟩ hpoll, List.length_cons]
        · exact hends.cons (p := ⟨flags, payload⟩) hp ⟨habort, hbreak⟩

/-- What a poll does to the queue: the fragments passed are the first ones, and if there are none the next one is
nearer, unless none has arrived. -/
structure Passes (items : List Item) (passed : List Piece) (rest : List Item) : Prop where
  fragments_eq : fragments items = passed ++ fragments rest
  nearer : passed = [] → fragments items = [] ∨ lead rest < lead items

/-- A poll that stops on its own at the end of a term is nearer to what is behind it. -/
theorem nearer_of_idle {k : Nat} (hitems : enterTerm items = List.replicate k .padding ++ rest)
    (hstop : rest = [] ∨ ∃ later, rest = .termEnd :: later) : fragments items = [] ∨ lead rest < lead items := by
  have hfragments : fragments items = fragments rest := by
    rw [← fragments_enterTerm, hitems, fragments_padding]
  rcases hstop with rfl | ⟨later, rfl⟩
  · exact .inl hfragments
  · refine .inr ?_
    have hlead : lead (enterTerm items) = lead (.termEnd :: later) + k := by rw [hitems, lead_padding]
    cases items with
    | nil => cases k <;> cases hitems
    | cons item items =>
      cases item with
      | fragment flags payload => cases k <;> cases hitems
      | padding =>
        -- the term does not end where the poll began
        cases k with
        | zero => cases hitems
        | succ k => rw [show lead (.padding :: items) = lead (enterTerm (.padding :: items)) from rfl, hlead]; omega
      | termEnd =>
        have hle := lead_enterTerm_le items
        rw [show enterTerm (.termEnd :: items) = enterTerm items from rfl] at hlead
        rw [show lead (.termEnd :: items) = lead items + 1 from rfl]
        omega

/-- What a poll that may read comes to. -/
inductive Polls (handler : Handler σ) (st : σ) (items : List Item) : List Piece → List Item → σ → Prop
  | ran {passed : List Piece} {rest : List Item} {st' : σ} : Ran handler st passed st' → Passes items passed rest →
      Polls handler st items passed rest st'
  | broke {p : Piece} {passed : List Piece} {rest : List Item} {st₁ st' : σ} : Ran handler st passed st₁ →
      handler st₁ p.flags p.payload = (.break, st') → fragments items = passed ++ p :: fragments rest →
      Polls handler st items (passed ++ [p]) rest st'
  | aborted {p : Piece} {passed : List Piece} {rest : List Item} {st₁ st' : σ} : Ran handler st passed st₁ →
      handler st₁ p.flags p.payload = (.abort, st') → fragments items = passed ++ p :: fragments rest →
      Polls handler st items passed (.fragment p.flags p.payload :: rest) st'

/-- **What a poll does.** -/
theorem controlledPoll_polls (handler : Handler σ) {fragmentLimit : Int} (hlimit : 0 < fragmentLimit) (st : σ)
    (items : List Item) : ∃ passed rest st',
      controlledPoll handler fragmentLimit st items = (passed.length, st', rest) ∧
      Polls handler st items passed rest st' := by
  obtain ⟨passed, rest, st', hpoll, hfragments, hends⟩ := pollTerm_ends handler fragmentLimit.toNat st (enterTerm items)
  rw [fragments_enterTerm] at hfragments
  refine ⟨passed, rest, st', hpoll, ?_⟩
  cases hends with
  | idle hitems hstop =>
    have hstop := hstop.resolve_left (by omega)
    exact .ran .nil ⟨hfragments, fun _ => nearer_of_idle hitems hstop⟩
  | ran hran => exact .ran hran ⟨hfragments, nofun⟩
  | broke hran hbreak =>
    refine .broke hran hbreak ?_
    rw [hfragments, List.append_assoc]
    rfl
  | aborted hran habort => exact .aborted hran habort hfragments

/-! ## Polls in a row -/

/-- What arrives in some turns, from one on. -/
def arrivals (turns : Nat → Turn) : Nat → Nat → List Item
  | _, 0 => []
  | i, k + 1 => (turns i).arrived ++ arrivals turns (i + 1) k

/-- What is left to read behind the fragments passed. -/
theorem prefix_of_passed {own' fs gs : List Piece} (h : passed ++ own' <+: passed ++ fs ++ gs) : own' <+: fs ++ gs := by
  rw [List.append_assoc] at h
  exact List.prefix_append_right_inj passed |>.mp h

section Induction

variable (turns : Nat → Turn) {P : Nat → List Item → List Piece → Prop}
  (step : ∀ i items own future, own ≠ [] → own <+: fragments (items ++ (turns i).arrived) ++ future →
    (∀ passed own' rest, own = passed ++ own' → own' ≠ [] → Passes (items ++ (turns i).arrived) passed rest →
      P (i + 1) rest own') → P i items own)

include step

/-- Fragments that have arrived: either some are read, or the next one is nearer. -/
theorem polling_induction_arrived (own : List Piece) (i : Nat) (items : List Item) (hown : own ≠ [])
    (harrived : own <+: fragments items) : P i items own := by
  induction hn : own.length using Nat.strong_induction_on generalizing own i items with
  | _ n ihOwn =>
  induction hl : lead items using Nat.strong_induction_on generalizing i items with
  | _ l ihLead =>
  apply step i items own [] hown
  · rw [List.append_nil, fragments_append]
    exact harrived.trans (List.prefix_append _ _)
  rintro passed own' rest rfl hown' hpasses
  have hnonempty : fragments items ≠ [] := by
    intro hnil
    rw [hnil] at harrived
    exact hown (List.prefix_nil.mp harrived)
  have hrest : own' <+: fragments rest := by
    have hall : passed ++ own' <+: passed ++ fragments rest ++ [] := by
      rw [List.append_nil, ← hpasses.fragments_eq, fragments_append]
      exact harrived.trans (List.prefix_append _ _)
    simpa using prefix_of_passed hall
  by_cases hpassed : passed = []
  · subst hpassed
    have hnearer : lead rest < lead (items ++ (turns i).arrived) := by
      refine (hpasses.nearer rfl).resolve_left ?_
      rw [fragments_append]
      exact fun hnil => hnonempty (List.append_eq_nil_iff.mp hnil).1
    rw [lead_append hnonempty, hl] at hnearer
    exact ihLead (lead rest) hnearer (i + 1) rest hrest rfl
  · have hpos := List.length_pos_iff.mpr hpassed
    rw [List.length_append] at hn
    exact ihOwn own'.length (by omega) own' (i + 1) rest hown' hrest rfl

/-- **Induction over polls**: fragments that arrive within some turns are read after finitely many polls. -/
theorem polling_induction : ∀ (k i : Nat) (items : List Item) (own : List Piece), own ≠ [] →
    own <+: fragments (items ++ arrivals turns i k) → P i items own := by
  intro k
  induction k with
  | zero =>
    intro i items own hown harrived
    rw [arrivals, List.append_nil] at harrived
    exact polling_induction_arrived turns step own i items hown harrived
  | succ k ih =>
    intro i items own hown harrived
    rw [arrivals, ← List.append_assoc, fragments_append] at harrived
    apply step i items own _ hown harrived
    rintro passed own' rest rfl hown' hpasses
    apply ih (i + 1) rest own' hown'
    rw [hpasses.fragments_eq] at harrived
    rw [fragments_append]
    exact prefix_of_passed harrived

end Induction

end AeronGo.Archive
