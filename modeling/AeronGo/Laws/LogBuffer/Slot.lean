import AeronGo.LogBuffer.Slot
import AeronGo.Laws.LogBuffer.Descriptor

/-!
# Laws of slots

A slot depends on its own bytes only (`Slot.At.congr`), so a row of slots survives every store outside
of it (`Laid.congr`) and grows at its end (`Laid.append`). How the slots come into the memory is not said here: that
is for the appender (`Laws.LogBuffer.Appender`), and how they are read is for `Laws.LogBuffer.Reader`.
-/

namespace AeronGo.LogBuffer

open Machine

variable {sessionId : Int}

namespace Slot

variable {m : Memory} {offset : Int} {s : Slot}

/-- A frame has its header at least, committed or not. -/
theorem At.frameLength_ge (h : s.At sessionId m offset) :
    32 ≤ s.frameLength := by
  cases s with
  | data flags payload => exact Int.le_add_of_nonneg_left (Int.natCast_nonneg _)
  | padding n | pending n => exact h.1

/-- The space of a frame is its length rounded up to the frame alignment. -/
theorem space_bounds (h : 32 ≤ s.frameLength) :
    s.frameLength ≤ s.space ∧ 32 ≤ s.space ∧ s.space % 32 = 0 := by
  unfold space
  omega

/-- A slot is where its bytes are. -/
theorem At.shift (h : s.At sessionId m offset) (m' : Memory) (d : Int)
    (hsame : ∀ i, offset ≤ i → i < offset + s.space → m' (i + d) = m i) : s.At sessionId m' (offset + d) := by
  have hge := h.frameLength_ge
  obtain ⟨hframe, hspace, _⟩ := space_bounds hge
  have hmove : ∀ k : Int, offset + d + k = offset + k + d := fun k => by omega
  have hlength : getInt32 m' (offset + d) = getInt32 m offset :=
    getInt32_shift fun i lo hi => hsame i (by omega) (by omega)
  have htype : getUInt16 m' (offset + d + 6) = getUInt16 m (offset + 6) := by
    rw [hmove]
    exact getUInt16_shift fun i lo hi => hsame i (by omega) (by omega)
  have hflags : getUInt8 m' (offset + d + 5) = getUInt8 m (offset + 5) := by
    rw [hmove]
    exact hsame _ (by omega) (by omega)
  have hsession : getInt32 m' (offset + d + 12) = getInt32 m (offset + 12) := by
    rw [hmove]
    exact getInt32_shift fun i lo hi => hsame i (by omega) (by omega)
  cases s with
  | data flags payload =>
    obtain ⟨h1, h2, h3, h4, h5⟩ := h
    have hpayload : Machine.read m' (offset + d + 32) payload.length =
        Machine.read m (offset + 32) payload.length := by
      rw [hmove]
      refine read_shift ?_
      intro i lo hi
      simp only [Slot.frameLength] at hframe
      exact hsame i (by omega) (by omega)
    exact ⟨hlength.trans h1, htype.trans h2, hflags.trans h3, hsession.trans h4, hpayload.trans h5⟩
  | padding n =>
    obtain ⟨h0, h1, h2⟩ := h
    exact ⟨h0, hlength.trans h1, htype.trans h2⟩
  | pending n =>
    obtain ⟨h0, h1, h2, h3, h4⟩ := h
    exact ⟨h0, hlength.trans h1, htype.trans h2, hflags.trans h3, hsession.trans h4⟩

/-- Memories that agree on a slot's bytes hold the same slot there. -/
theorem At.congr {m' : Memory} (h : s.At sessionId m offset)
    (hsame : ∀ i, offset ≤ i → i < offset + s.space → m' i = m i) : s.At sessionId m' offset := by
  have hshift := h.shift m' 0 fun i lo hi => by
    rw [Int.add_zero]
    exact hsame i lo hi
  rwa [Int.add_zero] at hshift

end Slot

/-- No slots take no space. -/
@[simp] theorem totalSpace_nil : totalSpace [] = 0 := rfl

/-- The space of a row is the sum of its slots' spaces. -/
@[simp] theorem totalSpace_cons (s : Slot) (rest : List Slot) :
    totalSpace (s :: rest) = s.space + totalSpace rest := rfl

/-- Rows one behind the other. -/
theorem totalSpace_append (xs ys : List Slot) : totalSpace (xs ++ ys) = totalSpace xs + totalSpace ys := by
  induction xs with
  | nil => simp
  | cons x xs ih => simp only [List.cons_append, totalSpace_cons, ih, Int.add_assoc]

/-- So every slot of a term begins at a multiple of 32. -/
theorem totalSpace_aligned (xs : List Slot) : totalSpace xs % 32 = 0 := by
  induction xs with
  | nil => rfl
  | cons x xs ih =>
    rw [totalSpace_cons, Slot.space]
    omega

/-- Slots of a row have positive spaces, and so a row ends at or after its start. -/
theorem totalSpace_nonneg {xs : List Slot} (h : ∀ s ∈ xs, 0 < s.space) : 0 ≤ totalSpace xs := by
  induction xs with
  | nil => exact Int.le_refl 0
  | cons x xs ih =>
    rw [totalSpace_cons]
    exact Int.add_nonneg (Int.le_of_lt (h x List.mem_cons_self)) (ih fun s hs => h s (List.mem_cons_of_mem x hs))

/-- A row of at least one slot moves the position on. -/
theorem totalSpace_pos {xs : List Slot} (h : ∀ s ∈ xs, 0 < s.space) (hne : xs ≠ []) : 0 < totalSpace xs := by
  cases xs with
  | nil => exact absurd rfl hne
  | cons x xs =>
    rw [totalSpace_cons]
    exact Int.add_pos_of_pos_of_nonneg (h x List.mem_cons_self)
      (totalSpace_nonneg fun s hs => h s (List.mem_cons_of_mem x hs))

/-! ## Messages -/

/-- Also an empty message takes the space of its header. -/
theorem space_data_pos (flags : UInt8) (payload : List UInt8) : 0 < (Slot.data flags payload).space := by
  have hge : 32 ≤ (Slot.data flags payload).frameLength := Int.le_add_of_nonneg_left (Int.natCast_nonneg _)
  exact Int.lt_of_lt_of_le (by decide) (Slot.space_bounds hge).2.1

/-- Fragments are data frames. -/
theorem fragmentSlots_isData (maxPayload : Int) :
    ∀ (fuel : Nat) (flags : UInt8) (message : List UInt8), ∀ s ∈ fragmentSlots maxPayload fuel flags message,
      ∃ flags payload, s = .data flags payload := by
  intro fuel
  induction fuel with
  | zero =>
    intro flags message s hs
    cases hs
  | succ fuel ih =>
    intro flags message s hs
    rw [fragmentSlots] at hs
    split at hs
    next =>
      split at hs
      next => exact ⟨_, _, List.mem_singleton.mp hs⟩
      next =>
        rcases List.mem_cons.mp hs with rfl | hs
        · exact ⟨_, _, rfl⟩
        · exact ih _ _ s hs
    next => cases hs

/-- A message is made of data frames only; padding is for the rest of a term. -/
theorem messageSlots_isData (maxPayload : Int) (message : List UInt8) :
    ∀ s ∈ messageSlots maxPayload message, ∃ flags payload, s = .data flags payload := by
  intro s hs
  unfold messageSlots at hs
  split at hs
  next => exact ⟨_, _, List.mem_singleton.mp hs⟩
  next => exact fragmentSlots_isData _ _ _ _ s hs

/-- A message takes at least one frame, even without bytes. -/
theorem messageSlots_ne_nil {maxPayload : Int} (hm : 0 < maxPayload) (message : List UInt8) :
    messageSlots maxPayload message ≠ [] := by
  unfold messageSlots
  split
  next => exact List.cons_ne_nil _ _
  next hlong =>
    obtain ⟨fuel, hfuel⟩ : ∃ fuel, message.length = fuel + 1 := ⟨message.length - 1, by omega⟩
    rw [hfuel, fragmentSlots, if_pos (by omega), if_neg hlong]
    exact List.cons_ne_nil _ _

namespace Laid

variable {m m' : Memory} {a b c : Int} {xs ys : List Slot}

/-- The end of a row is its start and the spaces of its slots, whatever the memory holds. -/
theorem stop_eq (h : Laid sessionId m a xs b) : b = a + totalSpace xs := by
  induction xs generalizing a with
  | nil => rw [totalSpace_nil, Int.add_zero]; exact h.symm
  | cons x xs ih => rw [totalSpace_cons, ih h.2, Int.add_assoc]

/-- A row does not end before its start. -/
theorem le (h : Laid sessionId m a xs b) : a ≤ b := by
  induction xs generalizing a with
  | nil => exact Int.le_of_eq h
  | cons x xs ih =>
    have hspace := (Slot.space_bounds h.1.frameLength_ge).2.1
    have hrest := ih h.2
    omega

/-- Each slot of a row in memory has a header, so a reader that steps over one moves on. -/
theorem space_pos (h : Laid sessionId m a xs b) : ∀ s ∈ xs, 0 < s.space := by
  induction xs generalizing a with
  | nil =>
    intro s hs
    cases hs
  | cons x xs ih =>
    intro s hs
    cases hs with
    | head => exact Int.lt_of_lt_of_le (by decide) (Slot.space_bounds h.1.frameLength_ge).2.1
    | tail _ hs => exact ih h.2 s hs

/-- A row of slots is where its bytes are. -/
theorem shift (h : Laid sessionId m a xs b) (m' : Memory) (d : Int) (hsame : ∀ i, a ≤ i → i < b → m' (i + d) = m i) :
    Laid sessionId m' (a + d) xs (b + d) := by
  induction xs generalizing a with
  | nil => exact congrArg (· + d) h
  | cons x xs ih =>
    have hspace := (Slot.space_bounds h.1.frameLength_ge).2.1
    have hle := Laid.le h.2
    refine ⟨h.1.shift m' d fun i lo hi => hsame i lo (by omega), ?_⟩
    rw [Int.add_right_comm]
    exact ih h.2 fun i lo hi => hsame i (by omega) hi

/-- Memories that agree between the ends of a row hold the same row there. -/
theorem congr (h : Laid sessionId m a xs b) (hsame : ∀ i, a ≤ i → i < b → m' i = m i) :
    Laid sessionId m' a xs b := by
  have hshift := h.shift m' 0 fun i lo hi => by
    rw [Int.add_zero]
    exact hsame i lo hi
  rwa [Int.add_zero, Int.add_zero] at hshift

/-- A row that begins where another ends continues it. -/
theorem append (hx : Laid sessionId m a xs b) (hy : Laid sessionId m b ys c) :
    Laid sessionId m a (xs ++ ys) c := by
  induction xs generalizing a with
  | nil => cases hx; exact hy
  | cons x xs ih => exact ⟨hx.1, ih hx.2⟩

/-- A row of slots splits where its first part ends. -/
theorem of_append (h : Laid sessionId m a (xs ++ ys) c) :
    Laid sessionId m a xs (a + totalSpace xs) ∧ Laid sessionId m (a + totalSpace xs) ys c := by
  induction xs generalizing a with
  | nil => simpa [Laid] using h
  | cons x xs ih =>
    obtain ⟨hx, hy⟩ := ih h.2
    rw [totalSpace_cons, ← Int.add_assoc]
    exact ⟨⟨h.1, hx⟩, hy⟩

end Laid

/-! ## Term ids -/

/-- The headers of a row of slots carry the term ids that are due at their offsets. -/
def Stamped (termIdAt : Int → Int) (m : Memory) : Int → List Slot → Prop
  | _, [] => True
  | a, s :: rest => getInt32 m (a + 20) = termIdAt a ∧ Stamped termIdAt m (a + s.space) rest

namespace Stamped

variable {termIdAt : Int → Int} {m m' : Memory} {a b : Int} {xs ys : List Slot}

/-- Stamped rows one behind the other are stamped as one; the first one's length says where the second begins. -/
theorem append (hx : Stamped termIdAt m a xs) (hl : Laid sessionId m a xs b) (hy : Stamped termIdAt m b ys) :
    Stamped termIdAt m a (xs ++ ys) := by
  induction xs generalizing a with
  | nil =>
    cases hl
    exact hy
  | cons x xs ih => exact ⟨hx.1, ih hx.2 hl.2⟩

/-- A stamped row splits where its first part ends. -/
theorem of_append (h : Stamped termIdAt m a (xs ++ ys)) (hl : Laid sessionId m a xs b) :
    Stamped termIdAt m a xs ∧ Stamped termIdAt m b ys := by
  induction xs generalizing a with
  | nil =>
    cases hl
    exact ⟨trivial, h⟩
  | cons x xs ih =>
    obtain ⟨hx, hy⟩ := ih h.2 hl.2
    exact ⟨⟨h.1, hx⟩, hy⟩

/-- A row of slots is stamped where its bytes are. -/
theorem shift (h : Stamped termIdAt m a xs) (hl : Laid sessionId m a xs b) (m' : Memory) (termIdAt' : Int → Int)
    (d : Int) (hsame : ∀ i, a ≤ i → i < b → m' (i + d) = m i)
    (hid : ∀ i, a ≤ i → i < b → termIdAt' (i + d) = termIdAt i) : Stamped termIdAt' m' (a + d) xs := by
  induction xs generalizing a with
  | nil => trivial
  | cons x xs ih =>
    have hspace := Slot.space_bounds hl.1.frameLength_ge
    have hle := hl.2.le
    refine ⟨?_, ?_⟩
    · have hmove : getInt32 m' (a + d + 20) = getInt32 m (a + 20) := by
        rw [Int.add_right_comm]
        exact getInt32_shift fun i lo hi => hsame i (by omega) (by omega)
      rw [hmove, h.1, hid a (Int.le_refl a) (by omega)]
    · rw [Int.add_right_comm]
      exact ih h.2 hl.2 (fun i lo hi => hsame i (by omega) hi) fun i lo hi => hid i (by omega) hi

/-- Memories that agree on a row carry the same term ids there. -/
theorem congr (h : Stamped termIdAt m a xs) (hl : Laid sessionId m a xs b)
    (hsame : ∀ i, a ≤ i → i < b → m' i = m i) : Stamped termIdAt m' a xs := by
  have hshift := h.shift hl m' termIdAt 0 (fun i lo hi => by rw [Int.add_zero]; exact hsame i lo hi)
    fun i _ _ => by rw [Int.add_zero]
  rwa [Int.add_zero] at hshift

end Stamped

end AeronGo.LogBuffer
