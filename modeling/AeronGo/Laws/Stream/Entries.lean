import AeronGo.Stream
import AeronGo.Laws.FragmentAssembler

/-!
# The entries of a log

Everything a publisher has put into the log, in order: the records of its calls and the padding at the
ends of terms. Each entry is a row of slots (`Entry.slots`). Assembling the slots of entries gives their
messages: any part of them that has no pending claim gives a prefix (`assemble_entries`), the whole gives
all (`assemble_all`), and no builder ever grows past a message (`assemble_light`).
-/

namespace AeronGo.Stream

open Machine Util Atomic LogBuffer

inductive Entry where
  | record (r : Record)
  | endOfTerm (frameLength : Int)

namespace Entry

/-- The slots of a record, from its outcome. -/
def slotsOf (maxPayload : Int) : Outcome → List Slot
  | .message bytes => messageSlots maxPayload bytes
  | .pending length => [.pending (length + 32)]
  | .aborted length => [.padding (length + 32)]

def slots (maxPayload : Int) : Entry → List Slot
  | record r => slotsOf maxPayload r.outcome
  | endOfTerm frameLength => [.padding frameLength]

def record? : Entry → Option Record
  | record r => some r
  | endOfTerm _ => none

/-- The message of an entry. -/
def message? (e : Entry) : Option (List UInt8) := e.record?.bind Record.message?

/-- The lengths of an entry are those that the calls accept. -/
def Sane (maxMessage : Int) : Entry → Prop
  | record ⟨_, .message bytes⟩ => (bytes.length : Int) ≤ maxMessage
  | record ⟨_, .pending length⟩ => 0 ≤ length
  | record ⟨_, .aborted length⟩ => 0 ≤ length
  | endOfTerm frameLength => 32 ≤ frameLength

end Entry

/-- All slots of the log. -/
def slotsOf (maxPayload : Int) (entries : List Entry) : List Slot := entries.flatMap (Entry.slots maxPayload)

/-- All messages of the log. -/
def messagesOf (entries : List Entry) : List (List UInt8) := entries.filterMap Entry.message?

section

variable {maxPayload : Int}

@[simp] theorem slotsOf_nil : slotsOf maxPayload [] = [] := rfl

@[simp] theorem slotsOf_cons (e : Entry) (entries : List Entry) :
    slotsOf maxPayload (e :: entries) = e.slots maxPayload ++ slotsOf maxPayload entries := rfl

theorem slotsOf_append (xs ys : List Entry) :
    slotsOf maxPayload (xs ++ ys) = slotsOf maxPayload xs ++ slotsOf maxPayload ys := List.flatMap_append

theorem messagesOf_cons (e : Entry) (entries : List Entry) :
    messagesOf (e :: entries) = e.message?.toList ++ messagesOf entries := by
  unfold messagesOf
  cases h : e.message? <;> simp [h]

end

/-! ## Assembling entries -/

/-- No slot is an open claim. -/
def Committed (slots : List Slot) : Prop := ∀ s ∈ slots, s.isPending = false

variable {a position : Int} {bound : Nat} {outcome : Outcome} {xs ys : List Slot}

theorem Committed.right (h : Committed (xs ++ ys)) : Committed ys :=
  fun s hs => h s (List.mem_append_right xs hs)

theorem Committed.append (hx : Committed xs) (hy : Committed ys) : Committed (xs ++ ys) := by
  intro s hs
  rcases List.mem_append.mp hs with hs | hs
  · exact hx s hs
  · exact hy s hs

/-- What a poll passes is committed. -/
theorem passed_committed (fragmentLimit bound position : Int) (slots : List Slot) :
    Committed ((passed fragmentLimit bound position slots).map Prod.snd) := by
  induction slots generalizing fragmentLimit position with
  | nil =>
    intro s hs
    cases hs
  | cons s slots ih =>
    by_cases h : 0 < fragmentLimit ∧ readable bound (position, s) = true
    · rw [passed_cons_of_readable h.1 h.2, List.map_cons]
      intro t ht
      rcases List.mem_cons.mp ht with rfl | ht
      · have hread := h.2
        simp only [readable, Bool.and_eq_true, Bool.not_eq_true'] at hread
        exact hread.2
      · exact ih _ _ t ht
    · rw [passed_cons_of_stuck h]
      intro t ht
      cases ht

section Assemble

variable {maxPayload : Int} (hm : 0 < maxPayload)

include hm

/-- An entry delivers its message, and a proper part of it nothing. -/
theorem assemble_entry (e : Entry) (delivered : List (List UInt8)) :
    assembleAll ([], delivered) (e.slots maxPayload) = ([], delivered ++ e.message?.toList) ∧
      ∀ xs ys, e.slots maxPayload = xs ++ ys → ys ≠ [] → (assembleAll ([], delivered) xs).2 = delivered := by
  have hsingle : ∀ s : Slot, completes [] s = none → nextBuilder [] s = [] →
      assembleAll ([], delivered) [s] = ([], delivered ++ (none : Option (List UInt8)).toList) ∧
        ∀ xs ys, [s] = xs ++ ys → ys ≠ [] → (assembleAll ([], delivered) xs).2 = delivered := by
    intro s hc hn
    constructor
    · simp [assemble, hc, hn]
    · intro xs ys hsplit hys
      rw [eq_nil_of_singleton_eq_append hsplit hys]
      rfl
  cases e with
  | endOfTerm n => exact hsingle (.padding n) rfl rfl
  | record r =>
    obtain ⟨position, outcome⟩ := r
    cases outcome with
    | message bytes => exact assemble_messageSlots hm bytes delivered
    | pending length => exact hsingle (.pending (length + 32)) rfl rfl
    | aborted length => exact hsingle (.padding (length + 32)) rfl rfl

theorem assemble_all (entries : List Entry) (delivered : List (List UInt8)) :
    assembleAll ([], delivered) (slotsOf maxPayload entries) = ([], delivered ++ messagesOf entries) := by
  induction entries generalizing delivered with
  | nil => simp [messagesOf]
  | cons e entries ih =>
    rw [slotsOf_cons, assembleAll_append, (assemble_entry hm e delivered).1, ih, messagesOf_cons, List.append_assoc]

/-- **A part of the log delivers a prefix of the messages.** -/
theorem assemble_entries (entries : List Entry) :
    ∀ (delivered : List (List UInt8)) (xs ys : List Slot), slotsOf maxPayload entries = xs ++ ys →
      (assembleAll ([], delivered) xs).2 <+: delivered ++ messagesOf entries := by
  induction entries with
  | nil =>
    intro delivered xs ys hsplit
    obtain ⟨rfl, _⟩ := List.append_eq_nil_iff.mp hsplit.symm
    exact List.prefix_append _ _
  | cons e entries ih =>
    intro delivered xs ys hsplit
    rw [slotsOf_cons] at hsplit
    rcases List.append_eq_append_iff.mp hsplit with ⟨zs, rfl, hrest⟩ | ⟨zs, hslots, _⟩
    · rw [assembleAll_append, (assemble_entry hm e delivered).1, messagesOf_cons, ← List.append_assoc]
      exact ih _ zs ys hrest
    · by_cases hzs : zs = []
      · subst hzs
        rw [List.append_nil] at hslots
        rw [← hslots, (assemble_entry hm e delivered).1, messagesOf_cons, ← List.append_assoc]
        exact List.prefix_append _ _
      · rw [(assemble_entry hm e delivered).2 xs zs hslots hzs]
        exact List.prefix_append _ _

end Assemble

/-! ## How large a builder gets -/

/-- The bytes that a slot adds to a builder at most. -/
def payloadLength : Slot → Nat
  | .data _ payload => payload.length
  | _ => 0

/-- Wherever a row is cut, the builder and the next payload together stay within a bound. -/
def Light (bound : Nat) (a : Assembly) (slots : List Slot) : Prop :=
  ∀ xs s ys, slots = xs ++ s :: ys → (assembleAll a xs).1.length + payloadLength s ≤ bound

theorem Light.cons {a : Assembly} {s : Slot} {slots : List Slot}
    (hs : a.1.length + payloadLength s ≤ bound) (hslots : Light bound (assemble a s) slots) :
    Light bound a (s :: slots) := by
  intro xs t ys hsplit
  cases xs with
  | nil =>
    obtain ⟨rfl, _⟩ := List.cons.inj hsplit
    exact hs
  | cons x xs =>
    obtain ⟨rfl, hrest⟩ := List.cons.inj hsplit
    exact hslots xs t ys hrest

theorem Light.nil (bound : Nat) (a : Assembly) : Light bound a [] := by
  intro xs s ys hsplit
  exact absurd (congrArg List.length hsplit) (by simp)

theorem Light.append {a : Assembly} (hx : Light bound a xs)
    (hy : Light bound (assembleAll a xs) ys) : Light bound a (xs ++ ys) := by
  induction xs generalizing a with
  | nil => exact hy
  | cons x xs ih =>
    refine Light.cons (hx [] x xs rfl) (ih ?_ hy)
    intro us s vs hsplit
    exact hx (x :: us) s vs (by rw [hsplit]; rfl)

theorem Light.left {a : Assembly} (h : Light bound a (xs ++ ys)) :
    Light bound a xs := by
  intro us s vs hsplit
  exact h us s (vs ++ ys) (by rw [hsplit, List.append_assoc]; rfl)

theorem Light.right {a : Assembly} (h : Light bound a (xs ++ ys)) :
    Light bound (assembleAll a xs) ys := by
  intro us s vs hsplit
  rw [← assembleAll_append]
  exact h (xs ++ us) s vs (by rw [hsplit, List.append_assoc])

variable {maxPayload maxMessage : Int}

theorem light_rest (hm : 0 < maxPayload) :
    ∀ (fuel : Nat) (rest builder : List UInt8) (delivered : List (List UInt8)), builder ≠ [] →
      Light (builder.length + rest.length) (builder, delivered) (fragmentSlots maxPayload fuel 0 rest) := by
  intro fuel
  induction fuel with
  | zero => exact fun rest builder delivered _ => Light.nil _ _
  | succ fuel ih =>
    intro rest builder delivered hbuilder
    rw [fragmentSlots]
    split
    next hpos =>
      split
      next => exact Light.cons (Nat.le_refl _) (Light.nil _ _)
      next hlong =>
        have htotal : builder.length + rest.length =
            (builder ++ rest.take maxPayload.toNat).length + (rest.drop maxPayload.toNat).length := by
          rw [List.length_append, List.length_take, List.length_drop]
          omega
        refine Light.cons ?_ ?_
        · show builder.length + (rest.take maxPayload.toNat).length ≤ _
          rw [List.length_take]
          omega
        · rw [assemble_middle (by decide) hbuilder, htotal]
          exact ih _ _ _ fun hnil => hbuilder (List.append_eq_nil_iff.mp hnil).1
    next => exact Light.nil _ _

/-- The builder of a message never holds more than the message. -/
theorem light_messageSlots (hm : 0 < maxPayload) (message : List UInt8)
    (delivered : List (List UInt8)) : Light message.length ([], delivered) (messageSlots maxPayload message) := by
  unfold messageSlots
  split
  next => exact Light.cons (by simp [payloadLength]) (Light.nil _ _)
  next hlong =>
    obtain ⟨fuel, hfuel⟩ : ∃ fuel, message.length = fuel + 1 := ⟨message.length - 1, by omega⟩
    have hslots : fragmentSlots maxPayload message.length beginFrag message =
        .data beginFrag (message.take maxPayload.toNat) ::
          fragmentSlots maxPayload fuel 0 (message.drop maxPayload.toNat) := by
      rw [hfuel, fragmentSlots, if_pos (by omega), if_neg hlong]
    have hfirst : message.take maxPayload.toNat ≠ [] := by
      intro hnil
      have := congrArg List.length hnil
      rw [List.length_take, List.length_nil] at this
      omega
    have htotal : message.length = (message.take maxPayload.toNat).length + (message.drop maxPayload.toNat).length := by
      rw [List.length_take, List.length_drop]
      omega
    rw [hslots]
    refine Light.cons ?_ ?_
    · show 0 + (message.take maxPayload.toNat).length ≤ _
      rw [List.length_take]
      omega
    · rw [assemble_begin (by decide), htotal]
      exact light_rest hm _ _ _ _ hfirst

/-- **No builder grows past the largest message.** -/
theorem assemble_light (hm : 0 < maxPayload) (hmax : 0 ≤ maxMessage)
    {entries : List Entry} (hsane : ∀ e ∈ entries, e.Sane maxMessage) (delivered : List (List UInt8)) :
    Light maxMessage.toNat ([], delivered) (slotsOf maxPayload entries) := by
  induction entries generalizing delivered with
  | nil => exact Light.nil _ _
  | cons e entries ih =>
    rw [slotsOf_cons]
    refine Light.append ?_ ?_
    · have he := hsane e List.mem_cons_self
      have hsmall : ∀ s : Slot, payloadLength s = 0 → Light maxMessage.toNat ([], delivered) [s] :=
        fun s hs => Light.cons (by simp [hs]) (Light.nil _ _)
      cases e with
      | endOfTerm n => exact hsmall (.padding n) rfl
      | record r =>
        obtain ⟨position, outcome⟩ := r
        cases outcome with
        | message bytes =>
          intro xs s ys hsplit
          have hle : (bytes.length : Int) ≤ maxMessage := he
          have hlight := light_messageSlots hm bytes delivered xs s ys hsplit
          omega
        | pending length => exact hsmall (.pending (length + 32)) rfl
        | aborted length => exact hsmall (.padding (length + 32)) rfl
    · rw [(assemble_entry hm e delivered).1]
      exact ih (fun e' he' => hsane e' (List.mem_cons_of_mem e he')) _

/-! ## Positions -/

section Positions

variable {maxPayload maxMessage : Int} (hm : 0 < maxPayload)

include hm

theorem Entry.Sane.slots_pos {e : Entry} (h : e.Sane maxMessage) :
    (∀ s ∈ e.slots maxPayload, 0 < s.space) ∧ e.slots maxPayload ≠ [] := by
  have hpad : ∀ n : Int, 32 ≤ n → 0 < (Slot.padding n).space ∧ 0 < (Slot.pending n).space := by
    intro n hn
    exact ⟨Int.lt_of_lt_of_le (by decide) (Slot.space_bounds (s := .padding n) hn).2.1,
      Int.lt_of_lt_of_le (by decide) (Slot.space_bounds (s := .pending n) hn).2.1⟩
  cases e with
  | endOfTerm n =>
    refine ⟨?_, List.cons_ne_nil _ _⟩
    intro s hs
    rw [List.mem_singleton.mp hs]
    exact (hpad n h).1
  | record r =>
    obtain ⟨position, outcome⟩ := r
    cases outcome with
    | message bytes =>
      refine ⟨?_, messageSlots_ne_nil hm bytes⟩
      intro s hs
      obtain ⟨flags, payload, rfl⟩ := messageSlots_isData maxPayload bytes s hs
      exact space_data_pos flags payload
    | pending length =>
      have hlo : 0 ≤ length := h
      refine ⟨?_, List.cons_ne_nil _ _⟩
      intro s hs
      rw [List.mem_singleton.mp hs]
      exact (hpad _ (by omega)).2
    | aborted length =>
      have hlo : 0 ≤ length := h
      refine ⟨?_, List.cons_ne_nil _ _⟩
      intro s hs
      rw [List.mem_singleton.mp hs]
      exact (hpad _ (by omega)).1

omit hm in
/-- A record's position is the end of its slots. -/
def Positioned (maxPayload : Int) : Int → List Entry → Prop
  | _, [] => True
  | a, e :: rest => (∀ r, e = .record r → r.position = a + totalSpace (e.slots maxPayload)) ∧
      Positioned maxPayload (a + totalSpace (e.slots maxPayload)) rest

omit hm in
theorem Positioned.append {xs ys : List Entry} (hx : Positioned maxPayload a xs)
    (hy : Positioned maxPayload (a + totalSpace (slotsOf maxPayload xs)) ys) : Positioned maxPayload a (xs ++ ys) := by
  induction xs generalizing a with
  | nil => simpa using hy
  | cons e xs ih =>
    refine ⟨hx.1, ih hx.2 ?_⟩
    rw [slotsOf_cons, totalSpace_append, ← Int.add_assoc] at hy
    exact hy

omit hm in
theorem Positioned.split {xs ys : List Entry} (h : Positioned maxPayload a (xs ++ ys)) :
    Positioned maxPayload a xs ∧ Positioned maxPayload (a + totalSpace (slotsOf maxPayload xs)) ys := by
  induction xs generalizing a with
  | nil => simpa [Positioned] using h
  | cons e xs ih =>
    obtain ⟨hx, hy⟩ := ih h.2
    rw [slotsOf_cons, totalSpace_append, ← Int.add_assoc]
    exact ⟨⟨h.1, hx⟩, hy⟩

omit hm in
/-- A record may be replaced by one of the same space. -/
theorem Positioned.replace {outcome outcome' : Outcome} {pre post : List Entry}
    (h : Positioned maxPayload a (pre ++ .record ⟨position, outcome⟩ :: post))
    (hspace : totalSpace (Entry.slotsOf maxPayload outcome') = totalSpace (Entry.slotsOf maxPayload outcome)) :
    Positioned maxPayload a (pre ++ .record ⟨position, outcome'⟩ :: post) := by
  obtain ⟨hpre, hthis, hpost⟩ := h.split
  have hsame : totalSpace ((Entry.record ⟨position, outcome'⟩).slots maxPayload) =
      totalSpace ((Entry.record ⟨position, outcome⟩).slots maxPayload) := hspace
  refine hpre.append ⟨?_, ?_⟩
  · intro r hr
    obtain rfl := Entry.record.inj hr
    have hposition : position = _ := hthis _ rfl
    rw [hsame]
    exact hposition
  · rw [hsame]
    exact hpost

/-- Records lie above where the entries begin, and not above where they end. -/
theorem Positioned.bounds {xs : List Entry} (h : Positioned maxPayload a xs)
    (hsane : ∀ e ∈ xs, e.Sane maxMessage) :
    ∀ r, Entry.record r ∈ xs → a < r.position ∧ r.position ≤ a + totalSpace (slotsOf maxPayload xs) := by
  induction xs generalizing a with
  | nil =>
    intro r hr
    cases hr
  | cons e xs ih =>
    intro r hr
    obtain ⟨hpos, hne⟩ := Entry.Sane.slots_pos hm (hsane e List.mem_cons_self)
    have hspace := totalSpace_pos hpos hne
    have hrest : 0 ≤ totalSpace (slotsOf maxPayload xs) := by
      refine totalSpace_nonneg ?_
      intro s hs
      obtain ⟨e', he', hs'⟩ := List.mem_flatMap.mp hs
      exact (Entry.Sane.slots_pos hm (hsane e' (List.mem_cons_of_mem e he'))).1 s hs'
    rw [slotsOf_cons, totalSpace_append]
    cases hr with
    | head =>
      have := h.1 r rfl
      omega
    | tail _ hr =>
      have := ih h.2 (fun e' he' => hsane e' (List.mem_cons_of_mem e he')) r hr
      omega

end Positions

/-- Records are in the order of their positions. -/
theorem Positioned.increasing (hm : 0 < maxPayload) {xs : List Entry}
    (h : Positioned maxPayload a xs) (hsane : ∀ e ∈ xs, e.Sane maxMessage) :
    (xs.filterMap Entry.record?).Pairwise fun r r' => r.position < r'.position := by
  induction xs generalizing a with
  | nil => exact List.Pairwise.nil
  | cons e xs ih =>
    have hrest := fun e' he' => hsane e' (List.mem_cons_of_mem e he')
    have htail := ih h.2 hrest
    cases e with
    | endOfTerm n =>
      rw [List.filterMap_cons_none rfl]
      exact htail
    | record r =>
      have hr : (Entry.record r).record? = some r := rfl
      rw [List.filterMap_cons_some hr]
      refine List.Pairwise.cons ?_ htail
      intro r' hr'
      obtain ⟨e, he, hrecord⟩ := List.mem_filterMap.mp hr'
      have hentry : e = .record r' := by
        cases e with
        | endOfTerm n => cases hrecord
        | record r'' => rw [Option.some.inj hrecord]
      have hbounds := h.2.bounds hm hrest r' (hentry ▸ he)
      have hposition := h.1 r rfl
      omega

/-- Where no record is pending, no slot is. -/
theorem committed_of_records {entries : List Entry}
    (h : ∀ r ∈ entries.filterMap Entry.record?, r.isPending = false) : Committed (slotsOf maxPayload entries) := by
  intro s hs
  obtain ⟨e, he, hs⟩ := List.mem_flatMap.mp hs
  cases e with
  | endOfTerm n =>
    rw [List.mem_singleton.mp hs]
    rfl
  | record r =>
    have hr : r.isPending = false := h r (List.mem_filterMap.mpr ⟨_, he, rfl⟩)
    obtain ⟨position, outcome⟩ := r
    cases outcome with
    | message bytes =>
      obtain ⟨flags, payload, rfl⟩ := messageSlots_isData maxPayload bytes s hs
      rfl
    | pending length => cases hr
    | aborted length =>
      rw [List.mem_singleton.mp hs]
      rfl

/-! ## Deciding a claim -/

def Entry.resolve (position : Int) (outcome : Outcome) : Entry → Entry
  | record r => record (r.resolve position outcome)
  | endOfTerm n => endOfTerm n

theorem records_resolve (entries : List Entry) (position : Int) (outcome : Outcome) :
    (entries.map (Entry.resolve position outcome)).filterMap Entry.record? =
      (entries.filterMap Entry.record?).map (Record.resolve position outcome) := by
  induction entries with
  | nil => rfl
  | cons e entries ih =>
    cases e with
    | record r =>
      have hr : ∀ r, (Entry.record r).record? = some r := fun _ => rfl
      rw [List.map_cons, Entry.resolve, List.filterMap_cons_some (hr _), List.filterMap_cons_some (hr _),
        List.map_cons, ih]
    | endOfTerm n =>
      have hn : (Entry.endOfTerm n).record? = none := rfl
      rw [List.map_cons, Entry.resolve, List.filterMap_cons_none hn, List.filterMap_cons_none hn, ih]

theorem resolve_of_ne {xs : List Entry}
    (h : ∀ r, Entry.record r ∈ xs → r.position ≠ position) : xs.map (Entry.resolve position outcome) = xs := by
  induction xs with
  | nil => rfl
  | cons e xs ih =>
    have hhead : e.resolve position outcome = e := by
      cases e with
      | endOfTerm n => rfl
      | record r => rw [Entry.resolve, Record.resolve, if_neg (h r List.mem_cons_self)]
    rw [List.map_cons, hhead, ih fun r hr => h r (List.mem_cons_of_mem e hr)]

/-- Deciding a position decides the one entry that has it. -/
theorem resolve_at (hm : 0 < maxPayload) {pre post : List Entry} (outcome' : Outcome)
    (hpositioned : Positioned maxPayload 0 (pre ++ .record ⟨position, outcome⟩ :: post))
    (hsane : ∀ e ∈ pre ++ .record ⟨position, outcome⟩ :: post, e.Sane maxMessage) :
    (pre ++ .record ⟨position, outcome⟩ :: post).map (Entry.resolve position outcome') =
      pre ++ .record ⟨position, outcome'⟩ :: post := by
  obtain ⟨hpre, hrest⟩ := hpositioned.split
  have hat := hrest.1 _ rfl
  have hmem : Entry.record ⟨position, outcome⟩ ∈ pre ++ .record ⟨position, outcome⟩ :: post :=
    List.mem_append_right pre List.mem_cons_self
  obtain ⟨hpos, hne⟩ := Entry.Sane.slots_pos hm (hsane _ hmem)
  have hspace := totalSpace_pos hpos hne
  have hbefore := hpre.bounds hm fun e he => hsane e (List.mem_append_left _ he)
  have hafter := hrest.2.bounds hm fun e he => hsane e (List.mem_append_right _ (List.mem_cons_of_mem _ he))
  have hpreSame : pre.map (Entry.resolve position outcome') = pre := by
    refine resolve_of_ne ?_
    intro r hr
    have := hbefore r hr
    simp only at hat
    omega
  have hpostSame : post.map (Entry.resolve position outcome') = post := by
    refine resolve_of_ne ?_
    intro r hr
    have := hafter r hr
    simp only at hat
    omega
  have hself : (Entry.record ⟨position, outcome⟩).resolve position outcome' = .record ⟨position, outcome'⟩ := by
    rw [Entry.resolve, Record.resolve, if_pos rfl]
  rw [List.map_append, List.map_cons, hpreSame, hpostSame, hself]

end AeronGo.Stream
