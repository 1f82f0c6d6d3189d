import AeronGo.Atomic.Footprint
import AeronGo.Laws.Atomic.Buffer

/-!
# Laws of accesses

A call reads and writes the bytes that it touches and no others (`run_touched`). `Memcpy` touches every byte of its length
once a loop has reached it, so a call is inside its buffers just if its range is: the sum that `BoundsCheck` compares
must not have wrapped, and the index must not be negative.
-/

namespace AeronGo.Atomic

open Machine

/-! ## Memcpy -/

/-- The words are in a range and leave none of its bytes out. -/
structure Covers (spans : List Span) (lo hi : Int) : Prop where
  le : lo ≤ hi
  inside : ∀ s ∈ spans, lo ≤ s.start ∧ s.start + s.length ≤ hi
  all : ∀ a, lo ≤ a → a < hi → ∃ s ∈ spans, s.Has a

namespace Covers

theorem nil (i : Int) : Covers [] i i :=
  ⟨Int.le_refl i, fun _ hs => absurd hs List.not_mem_nil, fun _ hlo hhi => absurd hhi (Int.not_lt.mpr hlo)⟩

theorem append {xs ys : List Span} {i j k : Int} (hx : Covers xs i j) (hy : Covers ys j k) : Covers (xs ++ ys) i k := by
  have hij := hx.le
  have hjk := hy.le
  refine ⟨by omega, ?_, ?_⟩
  · intro s hs
    rcases List.mem_append.mp hs with hs | hs
    · obtain ⟨hlo, hhi⟩ := hx.inside s hs
      exact ⟨hlo, by omega⟩
    · obtain ⟨hlo, hhi⟩ := hy.inside s hs
      exact ⟨by omega, hhi⟩
  · intro a hlo hhi
    by_cases ha : a < j
    · obtain ⟨s, hs, hhas⟩ := hx.all a hlo ha
      exact ⟨s, List.mem_append_left _ hs, hhas⟩
    · obtain ⟨s, hs, hhas⟩ := hy.all a (Int.not_lt.mp ha) hhi
      exact ⟨s, List.mem_append_right _ hs, hhas⟩

theorem word (i : Int) (w : Nat) : Covers [⟨i, w⟩] i (i + w) := by
  refine ⟨by omega, ?_, fun a hlo hhi => ⟨_, List.mem_singleton_self _, hlo, hhi⟩⟩
  intro s hs
  rw [List.mem_singleton.mp hs]
  exact ⟨Int.le_refl _, Int.le_refl _⟩

end Covers

/-- A loop of `Memcpy` goes on to its bound, in whole words that end before `length`. -/
theorem copySpans_covers (w : Nat) (bound length : Int) (hw : 0 < w) (hin : ∀ i, 0 ≤ i → i < bound → i + w ≤ length) :
    ∀ (fuel : Nat) (i : Int), 0 ≤ i → i ≤ length → bound - i ≤ fuel →
      Covers (copySpans w bound fuel i).2 i (copySpans w bound fuel i).1 ∧ (copySpans w bound fuel i).1 ≤ length ∧
        bound ≤ (copySpans w bound fuel i).1 := by
  intro fuel
  induction fuel with
  | zero =>
    intro i _ hi hfuel
    exact ⟨.nil i, hi, by simp only [copySpans]; omega⟩
  | succ fuel ih =>
    intro i lo hi hfuel
    unfold copySpans
    split
    next hlt =>
      obtain ⟨hcovers, hle, hbound⟩ := ih (i + w) (by omega) (hin i lo hlt) (by omega)
      exact ⟨(Covers.word i w).append hcovers, hle, hbound⟩
    next hge => exact ⟨.nil i, hi, by omega⟩

variable {a length offset : Int} {m m' : Memory} {n : Nat}

/-- **`Memcpy` touches the bytes of its length**, whatever the batches. -/
theorem memcpySpans_covers (lo : 0 ≤ length) : Covers (memcpySpans length) 0 length := by
  have hfuel : (length.toNat : Int) = length := Int.toNat_of_nonneg lo
  obtain ⟨heights, hile, _⟩ := copySpans_covers 8 (length / 8) length (by decide)
    (by intro i _ _; omega) length.toNat 0 (Int.le_refl 0) lo (by omega)
  have hilo := heights.le
  obtain ⟨hfours, hjle, _⟩ := copySpans_covers 4 ((length - (copySpans 8 (length / 8) length.toNat 0).1) / 4) length
    (by decide) (by intro i _ _; omega)
    length.toNat _ hilo hile (by omega)
  have hjlo := hfours.le
  obtain ⟨hones, hkle, hkge⟩ := copySpans_covers 1 length length (by decide)
    (by intro i _ _; omega) length.toNat _ (Int.le_trans hilo hjlo) hjle (by omega)
  have hend : length = (copySpans 1 length length.toNat (copySpans 4
      ((length - (copySpans 8 (length / 8) length.toNat 0).1) / 4) length.toNat
      (copySpans 8 (length / 8) length.toNat 0).1).1).1 := Int.le_antisymm hkge hkle
  have hall := (heights.append hfours).append hones
  rw [← hend] at hall
  exact hall

theorem memcpySpans_negative (h : length ≤ 0) : memcpySpans length = [] := by
  have hnone : length.toNat = 0 := by omega
  simp only [memcpySpans, hnone, copySpans, List.append_nil]

/-- One word. -/
def copySpan (dest : Int) (src : Memory) (srcIndex : Int) (m : Memory) (s : Span) : Memory :=
  write m (dest + s.start) (read src (srcIndex + s.start) s.length)

theorem copyWords_spans (w : Nat) (dest : Int) (src : Memory) (srcIndex bound : Int) (fuel : Nat) (i : Int) (m : Memory) :
    copyWords w dest src srcIndex bound fuel i m =
      ((copySpans w bound fuel i).1, (copySpans w bound fuel i).2.foldl (copySpan dest src srcIndex) m) := by
  induction fuel generalizing i m with
  | zero => rfl
  | succ fuel ih =>
    unfold copyWords copySpans
    split
    · rw [ih]
      rfl
    · rfl

/-- `Memcpy` is the copies of its words. -/
theorem memcpy_spans (m : Memory) (dest : Int) (src : Memory) (srcIndex length : Int) :
    memcpy m dest src srcIndex length = (memcpySpans length).foldl (copySpan dest src srcIndex) m := by
  simp only [memcpy, memcpySpans, copyWords_spans, List.foldl_append]

/-! ## What is touched is all that counts -/

/-- The address is in one of the spans. -/
def Touches (spans : List Span) (a : Int) : Prop := ∃ s ∈ spans, s.Has a

theorem touches_one {s : Span} : Touches [s] a ↔ s.Has a := by
  simp only [Touches, List.mem_singleton, exists_eq_left]

theorem not_touches_one (h : ¬Touches [⟨offset, n⟩] a) : a < offset ∨ offset + n ≤ a := by
  rw [touches_one, Span.Has] at h
  dsimp only at h
  omega

section Words

variable {dest srcIndex : Int} {src src' : Memory}

theorem foldl_copySpan_outside {spans : List Span} (h : ¬Touches (spans.map (Span.shift dest)) a) :
    spans.foldl (copySpan dest src srcIndex) m a = m a := by
  induction spans generalizing m with
  | nil => rfl
  | cons s spans ih =>
    rw [List.foldl_cons, ih fun hrest => h ?_]
    · apply write_of_outside
      rw [length_read]
      by_contra hin
      exact h ⟨s.shift dest, List.mem_cons_self, by simp only [Span.Has, Span.shift]; omega⟩
    · obtain ⟨t, ht, hhas⟩ := hrest
      exact ⟨t, List.mem_cons_of_mem _ ht, hhas⟩

theorem foldl_copySpan_agree {spans : List Span} (hm : m' a = m a)
    (hsrc : ∀ i, Touches (spans.map (Span.shift srcIndex)) i → src' i = src i) :
    spans.foldl (copySpan dest src' srcIndex) m' a = spans.foldl (copySpan dest src srcIndex) m a := by
  induction spans generalizing m m' with
  | nil => exact hm
  | cons s spans ih =>
    have hread : read src' (srcIndex + s.start) s.length = read src (srcIndex + s.start) s.length :=
      read_congr fun i lo hi => hsrc i ⟨s.shift srcIndex, List.mem_cons_self, lo, hi⟩
    refine ih ?_ fun i ⟨t, ht, hhas⟩ => hsrc i ⟨t, List.mem_cons_of_mem _ ht, hhas⟩
    simp only [copySpan, hread, write, hm]

theorem memcpy_touched
    (hm : ∀ a, Touches ((memcpySpans length).map (Span.shift dest)) a → m' a = m a)
    (hsrc : ∀ a, Touches ((memcpySpans length).map (Span.shift srcIndex)) a → src' a = src a) :
    (∀ a, Touches ((memcpySpans length).map (Span.shift dest)) a →
      memcpy m' dest src' srcIndex length a = memcpy m dest src srcIndex length a) ∧
      ∀ a, ¬Touches ((memcpySpans length).map (Span.shift dest)) a → memcpy m dest src srcIndex length a = m a := by
  refine ⟨fun a ha => ?_, fun a ha => ?_⟩
  · rw [memcpy_spans, memcpy_spans]
    exact foldl_copySpan_agree (hm a ha) hsrc
  · rw [memcpy_spans]
    exact foldl_copySpan_outside ha

end Words

/-- The word that is read. -/
def Width.value : Width → Memory → Int → Int
  | one, m, a => (getUInt8 m a).toNat
  | two, m, a => getUInt16 m a
  | four, m, a => getInt32 m a
  | eight, m, a => getInt64 m a

theorem Width.value_congr {width : Width}
    (h : ∀ a, offset ≤ a → a < offset + width.bytes → m' a = m a) : width.value m' offset = width.value m offset := by
  cases width with
  | one => exact congrArg (fun byte : UInt8 => (byte.toNat : Int)) (h offset (Int.le_refl _) (Int.lt_succ offset))
  | two => exact getUInt16_congr h
  | four => exact getInt32_congr h
  | eight => exact getInt64_congr h

namespace Operation

/-- What a call does once its checks are passed. -/
def effect (b source : Buffer) (value : Int) : Operation → Result × Buffer
  | .get width offset => (.word (width.value b.bytes offset), b)
  | .put width offset => (.none, { b with bytes := Machine.put width.bytes b.bytes offset value })
  | .putBytes index srcIndex length => (.none, { b with bytes := memcpy b.bytes index source.bytes srcIndex length })
  | .getBytesArray offset length => (.bytes (read b.bytes offset length.toNat), b)
  | .getBytes offset count => (.bytes (read b.bytes offset count), b)
  | .writeBytes offset length => (.bytes (read b.bytes offset length.toNat), b)
  | .putBytesArray index srcIndex length => (.none, { b with bytes := memcpy b.bytes index source.bytes srcIndex length })

section Run

variable {op : Operation} {b b' source source' : Buffer} {value : Int}

/-- A call returns where it touches something, and then has its effect. -/
theorem run_eq (op : Operation) (b source : Buffer) (value : Int) :
    op.run b source value = op.touched b.length source.length >>= fun _ => .ok (op.effect b source value) := by
  cases op with
  | get width offset =>
    cases width
    all_goals
      simp only [run, touched, Buffer.getUInt8, Buffer.getUInt16, Buffer.getInt32, Buffer.getInt64, bind_assoc, pure_bind]
      rfl
  | put width offset =>
    cases width
    all_goals
      simp only [run, touched, Buffer.putUInt8, Buffer.putUInt16, Buffer.putInt32, Buffer.putInt64, bind_assoc, pure_bind]
      rfl
  | putBytes index srcIndex length =>
    simp only [run, touched, Buffer.putBytes, bind_assoc, pure_bind]
    rfl
  | getBytesArray offset length =>
    simp only [run, touched, Buffer.getBytesArray, bind_assoc]
    split <;> rfl
  | getBytes offset count =>
    simp only [run, touched, Buffer.getBytes, bind_assoc, pure_bind]
    rfl
  | writeBytes offset length =>
    simp only [run, touched, Buffer.writeBytes, bind_assoc]
    split <;> rfl
  | putBytesArray index srcIndex length =>
    simp only [run, touched, Buffer.putBytesArray, bind_assoc]
    split <;> rfl

/-- The effect of a call, by what it touches. -/
theorem effect_touched {own src : List Span} (h : op.touched b.length source.length = .ok (own, src))
    (hown : ∀ a, Touches own a → b'.bytes a = b.bytes a) (hsrc : ∀ a, Touches src a → source'.bytes a = source.bytes a) :
    (op.effect b' source' value).1 = (op.effect b source value).1 ∧
      (∀ a, Touches own a → (op.effect b' source' value).2.bytes a = (op.effect b source value).2.bytes a) ∧
      ∀ a, ¬Touches own a → (op.effect b source value).2.bytes a = b.bytes a := by
  have hbytes : ∀ {offset : Int} {n : Nat}, own = [⟨offset, n⟩] → read b'.bytes offset n = read b.bytes offset n := by
    rintro offset n rfl
    exact read_congr fun a lo hi => hown a (touches_one.mpr ⟨lo, hi⟩)
  cases op with
  | get width offset =>
    obtain ⟨_, _, h⟩ := ok_of_bind h
    cases h
    refine ⟨congrArg Result.word (Width.value_congr fun a lo hi => hown a (touches_one.mpr ⟨lo, hi⟩)), hown, fun _ _ => rfl⟩
  | put width offset =>
    obtain ⟨_, _, h⟩ := ok_of_bind h
    cases h
    refine ⟨rfl, fun a ha => ?_, fun a ha => put_of_outside (not_touches_one ha)⟩
    simp only [effect, Machine.put, write, hown a ha]
  | putBytes index srcIndex length =>
    obtain ⟨_, _, h⟩ := ok_of_bind h
    obtain ⟨_, _, h⟩ := ok_of_bind h
    cases h
    exact ⟨rfl, memcpy_touched hown hsrc⟩
  | getBytesArray offset length | writeBytes offset length =>
    obtain ⟨_, _, h⟩ := ok_of_bind h
    split at h <;> cases h
    exact ⟨congrArg Result.bytes (hbytes rfl), hown, fun _ _ => rfl⟩
  | getBytes offset count =>
    obtain ⟨_, _, h⟩ := ok_of_bind h
    cases h
    exact ⟨congrArg Result.bytes (hbytes rfl), hown, fun _ _ => rfl⟩
  | putBytesArray index srcIndex length =>
    obtain ⟨_, _, h⟩ := ok_of_bind h
    obtain ⟨_, _, h⟩ := ok_of_bind h
    split at h <;> cases h
    exact ⟨rfl, memcpy_touched hown hsrc⟩

/-- **A call depends on what it touches and changes nothing else**: two calls that see the same bytes there return the same
and store the same. -/
theorem run_touched (op : Operation) (b b' source source' : Buffer) (value : Int) {own src : List Span}
    (h : op.touched b.length source.length = .ok (own, src))
    (hlength : b'.length = b.length) (hsource : source'.length = source.length)
    (hown : ∀ a, Touches own a → b'.bytes a = b.bytes a) (hsrc : ∀ a, Touches src a → source'.bytes a = source.bytes a) :
    ∃ result c c', op.run b source value = .ok (result, c) ∧ op.run b' source' value = .ok (result, c') ∧
      (∀ a, Touches own a → c'.bytes a = c.bytes a) ∧ ∀ a, ¬Touches own a → c.bytes a = b.bytes a := by
  obtain ⟨hresult, hstored, hframe⟩ := effect_touched h hown hsrc
  refine ⟨(op.effect b source value).1, _, _, ?_, ?_, hstored, hframe⟩
  · rw [run_eq, h, ok_bind]
  · rw [run_eq, hlength, hsource, h, ok_bind, ← hresult]

theorem run_touched_get : ∃ result c c', (Operation.get .four 4).run ⟨fun _ => 7, 8⟩ ⟨fun _ => 0, 0⟩ 0 = .ok (result, c) ∧
    (Operation.get .four 4).run ⟨fun a => if a < 4 then 0 else 7, 8⟩ ⟨fun _ => 0, 0⟩ 0 = .ok (result, c') := by
  obtain ⟨result, c, c', hrun, hrun', _⟩ := run_touched (.get .four 4) ⟨fun _ => 7, 8⟩
    ⟨fun a => if a < 4 then 0 else 7, 8⟩ ⟨fun _ => 0, 0⟩ ⟨fun _ => 0, 0⟩ 0 rfl rfl rfl
    (fun a ha => if_neg (Int.not_lt.mpr (touches_one.mp ha).1)) (fun _ _ => rfl)
  exact ⟨result, c, c', hrun, hrun'⟩

end Run

/-! ## When the checks are sound -/

/-- A call that returns has touched bytes of the buffers only. -/
def Sound (b source : Buffer) (op : Operation) : Prop :=
  ∀ value outcome, op.run b source value = .ok outcome → ∃ own src, op.touched b.length source.length = .ok (own, src) ∧
    (∀ s ∈ own, s.Inside b.length) ∧ ∀ s ∈ src, s.Inside source.length

/-- The sum of the check is that of the range: the index is not negative, and the end is a word or, for a longer array,
inside all the same. -/
def Exact (index length size : Int) : Prop := 0 ≤ index ∧ (index + length ≤ 2147483647 ∨ index + length ≤ size)

/-- The call is stopped, has no bytes to touch, or its sums are exact. -/
def Checked (own source : Int) : Operation → Prop
  | .get width offset => boundsCheck offset width.bytes own ≠ .ok () ∨ Exact offset width.bytes own
  | .put width offset => boundsCheck offset width.bytes own ≠ .ok () ∨ Exact offset width.bytes own
  | .putBytes index srcIndex length => boundsCheck index length own ≠ .ok () ∨ boundsCheck srcIndex length source ≠ .ok () ∨
      length ≤ 0 ∨ (Exact index length own ∧ Exact srcIndex length source)
  | .getBytesArray offset length => boundsCheck offset length own ≠ .ok () ∨ length ≤ 0 ∨ Exact offset length own
  | .getBytes offset count => boundsCheck offset (i32 count) own ≠ .ok () ∨ count = 0 ∨ Exact offset count own
  | .writeBytes offset length => boundsCheck offset length own ≠ .ok () ∨ length ≤ 0 ∨ Exact offset length own
  | .putBytesArray index srcIndex length => boundsCheck index length own ≠ .ok () ∨
      boundsCheck srcIndex length (i32 source) ≠ .ok () ∨ source = 0 ∨ length ≤ 0 ∨
      (Exact index length own ∧ Exact srcIndex length source)

end Operation

theorem Span.inside_iff {offset size : Int} :
    (⟨offset, n⟩ : Span).Inside size ↔ n = 0 ∨ (0 ≤ offset ∧ offset + n ≤ size) := by
  constructor
  · intro h
    by_cases hn : n = 0
    · exact .inl hn
    · have hfirst := h offset ⟨Int.le_refl _, by dsimp only; omega⟩
      have hlast := h (offset + n - 1) ⟨by dsimp only; omega, by dsimp only; omega⟩
      exact .inr ⟨hfirst.1, by omega⟩
  · rintro (rfl | ⟨lo, hi⟩) a ⟨hlo, hhi⟩
    · dsimp only at hlo hhi
      omega
    · dsimp only at hlo hhi
      omega

/-- The words of `Memcpy` are inside just if its range is. -/
theorem memcpySpans_inside_iff {index length size : Int} : (∀ s ∈ (memcpySpans length).map (Span.shift index), s.Inside size) ↔
    length ≤ 0 ∨ (0 ≤ index ∧ index + length ≤ size) := by
  by_cases hlength : length ≤ 0
  · rw [memcpySpans_negative hlength]
    exact ⟨fun _ => .inl hlength, fun _ s hs => absurd hs List.not_mem_nil⟩
  have hcovers := memcpySpans_covers (show 0 ≤ length by omega)
  have hbyte : ∀ k, 0 ≤ k → k < length → (∀ s ∈ (memcpySpans length).map (Span.shift index), s.Inside size) →
      0 ≤ index + k ∧ index + k < size := by
    intro k lo hi h
    obtain ⟨s, hs, hhas⟩ := hcovers.all k lo hi
    refine h _ (List.mem_map_of_mem hs) (index + k) ?_
    simp only [Span.Has, Span.shift] at hhas ⊢
    omega
  constructor
  · intro h
    have hfirst := hbyte 0 (Int.le_refl 0) (by omega) h
    have hlast := hbyte (length - 1) (by omega) (by omega) h
    exact .inr ⟨by omega, by omega⟩
  · rintro (h | ⟨lo, hi⟩) t ht a hhas
    · exact absurd h hlength
    · obtain ⟨s, hs, rfl⟩ := List.mem_map.mp ht
      have hin := hcovers.inside s hs
      simp only [Span.Has, Span.shift] at hhas
      omega

namespace Operation

/-- Where the check is passed the range is inside just if the sum is exact. -/
theorem exact_iff {index length size limit : Int} (hlimit : limit ≤ size) (hlength : 0 ≤ length)
    (hcheck : boundsCheck index length limit = .ok ()) :
    (0 ≤ index ∧ index + length ≤ size) ↔ Exact index length size := by
  constructor
  · rintro ⟨lo, hi⟩
    exact ⟨lo, .inr hi⟩
  · rintro ⟨lo, hi | hi⟩
    · have hsum : i32 (index + length) = index + length := i32_eq (by omega)
      rw [boundsCheck, hsum] at hcheck
      split at hcheck
      · cases hcheck
      · exact ⟨lo, by omega⟩
    · exact ⟨lo, hi⟩

section Sound

variable {b source : Buffer}

theorem sound_iff_touched (op : Operation) : op.Sound b source ↔ ∀ own src, op.touched b.length source.length = .ok (own, src) →
    (∀ s ∈ own, s.Inside b.length) ∧ ∀ s ∈ src, s.Inside source.length := by
  constructor
  · intro h own src htouched
    obtain ⟨own', src', htouched', hinside⟩ := h 0 (op.effect b source 0) (by rw [run_eq, htouched, ok_bind])
    rw [htouched] at htouched'
    cases htouched'
    exact hinside
  · intro h value outcome hrun
    rw [run_eq] at hrun
    obtain ⟨⟨own, src⟩, htouched, _⟩ := ok_of_bind hrun
    exact ⟨own, src, htouched, h own src htouched⟩

/-- An access of one range of the buffer. -/
theorem one_range_iff (hn : (n : Int) = length)
    (hcheck : boundsCheck offset length b.length = .ok ()) :
    ((∀ s ∈ [(⟨offset, n⟩ : Span)], s.Inside b.length) ∧ ∀ s ∈ ([] : List Span), s.Inside source.length) ↔
      length ≤ 0 ∨ Exact offset length b.length := by
  rw [List.forall_mem_singleton, Span.inside_iff, hn, exact_iff (Int.le_refl _) (by omega) hcheck]
  constructor
  · rintro ⟨hzero | hexact, _⟩
    · exact .inl (by omega)
    · exact .inr hexact
  · rintro (hzero | hexact)
    · exact ⟨.inl (by omega), fun _ hs => absurd hs List.not_mem_nil⟩
    · exact ⟨.inr hexact, fun _ hs => absurd hs List.not_mem_nil⟩

/-- A copy from a source whose length is checked as `limit`. -/
theorem copy_iff {index srcIndex length limit : Int} (hlimit : limit ≤ source.length)
    (hcheck : boundsCheck index length b.length = .ok ()) (hcheckSource : boundsCheck srcIndex length limit = .ok ()) :
    ((∀ s ∈ (memcpySpans length).map (Span.shift index), s.Inside b.length) ∧
      ∀ s ∈ (memcpySpans length).map (Span.shift srcIndex), s.Inside source.length) ↔
      length ≤ 0 ∨ (Exact index length b.length ∧ Exact srcIndex length source.length) := by
  rw [memcpySpans_inside_iff, memcpySpans_inside_iff]
  by_cases hlength : length ≤ 0
  · exact ⟨fun _ => .inl hlength, fun _ => ⟨.inl hlength, .inl hlength⟩⟩
  · rw [or_iff_right hlength, or_iff_right hlength, or_iff_right hlength, exact_iff (Int.le_refl _) (by omega) hcheck,
      exact_iff hlimit (by omega) hcheckSource]

theorem boundsCheck_i32 (index length size : Int) : boundsCheck index (i32 length) size = boundsCheck index length size := by
  rw [boundsCheck, boundsCheck, Int.add_comm, i32_add_left, Int.add_comm]

section Passed

variable {P : List Span → List Span → Prop} {Q : Prop}

/-- A check is passed or not. -/
theorem passed_iff {x : Except Stop Unit} {f : Unit → Except Stop (List Span × List Span)}
    (h : x = .ok () → ((∀ own src, f () = .ok (own, src) → P own src) ↔ Q)) :
    (∀ own src, (x >>= f) = .ok (own, src) → P own src) ↔ x ≠ .ok () ∨ Q := by
  cases x with
  | error stop => exact ⟨fun _ => .inl nofun, fun _ _ _ hstop => nomatch hstop⟩
  | ok u => exact (h rfl).trans (or_iff_right fun hne => hne rfl).symm

theorem returned_iff {own src : List Span} : (∀ own' src', Except.ok (ε := Stop) (own, src) = .ok (own', src') → P own' src') ↔
    P own src :=
  ⟨fun h => h own src rfl, fun h _ _ heq => by cases heq; exact h⟩

end Passed

/-- A length that `make` or `Grow` accepts. -/
theorem unless_negative_iff (hcheck : boundsCheck offset length b.length = .ok ()) :
    (∀ own src, (if length < 0 then .error .panic else pure ([⟨offset, length.toNat⟩], []) :
        Except Stop (List Span × List Span)) = .ok (own, src) →
      (∀ s ∈ own, s.Inside b.length) ∧ ∀ s ∈ src, s.Inside source.length) ↔ length ≤ 0 ∨ Exact offset length b.length := by
  by_cases hneg : length < 0
  · rw [if_pos hneg]
    exact ⟨fun _ => .inl (Int.le_of_lt hneg), fun _ _ _ hstop => nomatch hstop⟩
  · rw [if_neg hneg]
    exact returned_iff.trans (one_range_iff (Int.toNat_of_nonneg (Int.not_lt.mp hneg)) hcheck)

/-- **The checks are sound just if their sums are exact.** -/
theorem bounds_sound_iff (op : Operation) (b source : Buffer) (hsource : 0 ≤ source.length) :
    op.Sound b source ↔ op.Checked b.length source.length := by
  rw [sound_iff_touched]
  cases op with
  | get width offset | put width offset =>
    refine passed_iff fun hcheck => returned_iff.trans ((one_range_iff rfl hcheck).trans (or_iff_right ?_))
    cases width <;> decide
  | putBytes index srcIndex length =>
    refine passed_iff fun hcheck => passed_iff fun hcheckSource => returned_iff.trans ?_
    exact copy_iff (Int.le_refl _) hcheck hcheckSource
  | getBytesArray offset length | writeBytes offset length => exact passed_iff fun hcheck => unless_negative_iff hcheck
  | getBytes offset count =>
    refine passed_iff fun hcheck => returned_iff.trans ?_
    rw [boundsCheck_i32] at hcheck
    rw [one_range_iff rfl hcheck, Int.natCast_nonpos_iff]
  | putBytesArray index srcIndex length =>
    refine passed_iff fun hcheck => passed_iff fun hcheckSource => ?_
    have hlimit : i32 source.length ≤ source.length := by
      rw [i32]
      omega
    by_cases hempty : source.length = 0
    · simp only [if_pos hempty]
      refine ⟨fun _ => .inl hempty, fun _ _ _ hstop => ?_⟩
      cases hstop
    · simp only [if_neg hempty]
      rw [or_iff_right hempty]
      exact returned_iff.trans (copy_iff hlimit hcheck hcheckSource)

end Sound

/-- A buffer of sixteen bytes. -/
def sixteen : Buffer := ⟨fun _ => 0, 16⟩

/-- A copy to the second half of a buffer. -/
theorem bounds_sound_iff_copy : 0 ≤ sixteen.length ∧ (Operation.putBytes 8 0 8).Sound sixteen sixteen :=
  ⟨by decide, (bounds_sound_iff (.putBytes 8 0 8) sixteen sixteen (by decide)).mpr
    (.inr (.inr (.inr ⟨⟨by decide, .inl (by decide)⟩, by decide, .inl (by decide)⟩)))⟩

/-- **A negative offset passes, and so does a sum that wraps**: a load in front of the buffer, and a store of a byte more
than two gigabytes behind it. -/
theorem passed_not_sound : ¬(Operation.get .four (-4)).Sound sixteen sixteen ∧
    ¬(Operation.putBytes 2147483647 0 1).Sound sixteen sixteen := by
  constructor
  · intro h
    obtain ⟨own, src, htouched, hown, _⟩ := h 0 ((Operation.get .four (-4)).effect sixteen sixteen 0) (by rw [run_eq]; rfl)
    cases htouched
    have hbyte := hown ⟨-4, 4⟩ (List.mem_singleton_self _) (-4) ⟨by decide, by decide⟩
    exact absurd hbyte.1 (by decide)
  · intro h
    obtain ⟨own, src, htouched, hown, _⟩ := h 0 ((Operation.putBytes 2147483647 0 1).effect sixteen sixteen 0)
      (by rw [run_eq]; rfl)
    cases htouched
    have hbyte := hown ⟨2147483647, 1⟩ (by decide) 2147483647 ⟨by decide, by decide⟩
    exact absurd hbyte.2 (by decide)

end Operation

end AeronGo.Atomic
