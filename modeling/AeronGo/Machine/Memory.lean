import AeronGo.Machine.Word
import Mathlib.Data.List.GetD

/-!
# Byte memory

A memory is a byte at every integer address; a buffer's own bytes are those from `0` up to its
length, and an address outside them names whatever lies around the buffer. Every store is
`write` of a list of bytes and every load is `read` of one, so the two laws that matter are said
once: a load sees the last store to its bytes (`read_write_self`), and a store elsewhere does not
touch it (`read_write_of_disjoint`). Typed loads and stores are little endian on top of those.
-/

namespace Machine

/-- A byte at every address. -/
abbrev Memory := Int → UInt8

/-- The `n` bytes from an address on. -/
def read (m : Memory) (a : Int) : Nat → List UInt8
  | 0 => []
  | n + 1 => m a :: read m (a + 1) n

/-- The memory after storing bytes from an address on. -/
def write (m : Memory) (a : Int) (bs : List UInt8) : Memory := fun i =>
  if a ≤ i ∧ i < a + bs.length then bs.getD (i - a).toNat 0 else m i

@[simp] theorem length_read (m : Memory) (a : Int) (n : Nat) : (read m a n).length = n := by
  induction n generalizing a with
  | zero => rfl
  | succ n ih => simp only [read, List.length_cons, ih]

variable {bs : List UInt8} {n w : Nat}

variable {a d i b : Int} {m m' : Memory} {xs : List UInt8}

/-- A load depends only on the bytes it reads, wherever they lie. -/
theorem read_shift
    (h : ∀ i, a ≤ i → i < a + n → m (i + d) = m' i) : read m (a + d) n = read m' a n := by
  induction n generalizing a with
  | zero => rfl
  | succ n ih =>
    have hhead : m (a + d) = m' a := h a (by omega) (by omega)
    have htail : read m (a + 1 + d) n = read m' (a + 1) n := by
      apply ih
      intro i hlo hhi
      exact h i (by omega) (by omega)
    rw [Int.add_right_comm] at htail
    simp only [read, hhead, htail]

theorem read_congr
    (h : ∀ i, a ≤ i → i < a + n → m i = m' i) : read m a n = read m' a n := by
  have hshift : read m (a + 0) n = read m' a n := by
    refine read_shift fun i lo hi => ?_
    rw [Int.add_zero]
    exact h i lo hi
  rwa [Int.add_zero] at hshift

/-- A load of a longer range is the loads of its two parts. -/
theorem read_append (m : Memory) (a : Int) (p q : Nat) :
    read m a (p + q) = read m a p ++ read m (a + p) q := by
  induction p generalizing a with
  | zero => simp [read]
  | succ p ih =>
    rw [Nat.add_right_comm]
    simp only [read, ih, List.cons_append, Nat.cast_add, Nat.cast_one]
    rw [show a + 1 + (p : Int) = a + ((p : Int) + 1) from by omega]

/-- A part of a load is a load. -/
theorem drop_take_read (m : Memory) (a : Int) {p k : Nat} (h : p + k ≤ n) :
    ((read m a n).drop p).take k = read m (a + p) k := by
  obtain ⟨r, rfl⟩ : ∃ r, n = p + (k + r) := ⟨n - p - k, by omega⟩
  rw [read_append, List.drop_left' (length_read m a p), read_append, List.take_left' (length_read _ _ k)]

theorem getElem?_read (m : Memory) (a : Int) (n i : Nat) :
    (read m a n)[i]? = if i < n then some (m (a + i)) else none := by
  induction n generalizing a i with
  | zero => simp [read]
  | succ n ih =>
    cases i with
    | zero => simp [read]
    | succ i =>
      simp only [read, List.getElem?_cons_succ, ih, Nat.add_lt_add_iff_right]
      rw [show a + 1 + (i : Int) = a + ((i + 1 : Nat) : Int) from by omega]

/-- Outside the stored range nothing changes. -/
theorem write_of_outside
    (h : i < a ∨ a + bs.length ≤ i) : write m a bs i = m i := by
  unfold write
  rw [if_neg (by omega)]

/-- Inside the stored range the byte is the stored one. -/
theorem write_of_inside {k : Nat} (h : k < bs.length) :
    write m a bs (a + k) = bs.getD k 0 := by
  unfold write
  rw [if_pos (by omega), show (a + (k : Int) - a).toNat = k from by omega]

/-- A store elsewhere does not touch a load. -/
theorem read_write_of_disjoint
    (h : b + n ≤ a ∨ a + bs.length ≤ b) : read (write m a bs) b n = read m b n := by
  apply read_congr
  intro i hlo hhi
  exact write_of_outside (by omega)

/-- A load sees the store to its own range. -/
theorem read_write_self (m : Memory) (a : Int) (bs : List UInt8) :
    read (write m a bs) a bs.length = bs := by
  apply List.ext_getElem?
  intro i
  rw [getElem?_read]
  split
  next hlt => rw [write_of_inside hlt, List.getD_eq_getElem?_getD, List.getElem?_eq_getElem hlt]; rfl
  next hge => exact (List.getElem?_eq_none (by omega)).symm

/-- A store of a longer range is the stores of its two parts. -/
theorem write_append (m : Memory) (a : Int) (xs ys : List UInt8) :
    write m a (xs ++ ys) = write (write m a xs) (a + xs.length) ys := by
  funext i
  by_cases hy : a + xs.length ≤ i ∧ i < a + xs.length + ys.length
  · obtain ⟨k, rfl⟩ : ∃ k : Nat, i = a + xs.length + k := ⟨(i - a - xs.length).toNat, by omega⟩
    have hk : k < ys.length := by omega
    have hsum : a + (xs.length : Int) + k = a + ((xs.length + k : Nat) : Int) := by omega
    rw [write_of_inside hk, hsum, write_of_inside (by rw [List.length_append]; omega),
      List.getD_append_right _ _ _ _ (by omega), Nat.add_sub_cancel_left]
  · rw [write_of_outside (show i < a + xs.length ∨ a + xs.length + ys.length ≤ i by omega)]
    by_cases hx : a ≤ i ∧ i < a + xs.length
    · obtain ⟨k, rfl⟩ : ∃ k : Nat, i = a + k := ⟨(i - a).toNat, by omega⟩
      have hk : k < xs.length := by omega
      rw [write_of_inside hk, write_of_inside (by rw [List.length_append]; omega),
        List.getD_append _ _ _ _ hk]
    · rw [write_of_outside (show i < a ∨ a + xs.length ≤ i by omega),
        write_of_outside (by rw [List.length_append]; omega)]

/-- The later store to a place is the one that counts. -/
theorem write_write (m : Memory) (a : Int) {ys : List UInt8} (h : xs.length ≤ ys.length) :
    write (write m a xs) a ys = write m a ys := by
  funext i
  by_cases hi : i < a ∨ a + ys.length ≤ i
  · rw [write_of_outside hi, write_of_outside hi, write_of_outside (by omega)]
  · obtain ⟨k, rfl⟩ : ∃ k : Nat, i = a + k := ⟨(i - a).toNat, by omega⟩
    rw [write_of_inside (by omega), write_of_inside (by omega)]

/-- Stores to different places commute. -/
theorem write_comm (m : Memory) {ys : List UInt8} (h : a + xs.length ≤ b ∨ b + ys.length ≤ a) :
    write (write m a xs) b ys = write (write m b ys) a xs := by
  funext i
  by_cases hb : i < b ∨ b + ys.length ≤ i
  · rw [write_of_outside hb]
    by_cases ha : i < a ∨ a + xs.length ≤ i
    · rw [write_of_outside ha, write_of_outside ha, write_of_outside hb]
    · obtain ⟨k, rfl⟩ : ∃ k : Nat, i = a + k := ⟨(i - a).toNat, by omega⟩
      rw [write_of_inside (by omega), write_of_inside (by omega)]
  · obtain ⟨k, rfl⟩ : ∃ k : Nat, i = b + k := ⟨(i - b).toNat, by omega⟩
    rw [write_of_inside (by omega), write_of_outside (by omega), write_of_inside (by omega)]

/-- A store over the front of another one. -/
theorem write_front (m : Memory) (a : Int) {zs : List UInt8} (ys : List UInt8) (h : zs.length = xs.length) :
    write (write m a (xs ++ ys)) a zs = write m a (zs ++ ys) := by
  rw [write_append, write_comm _ (.inr (by omega)), write_write _ _ (Nat.le_of_eq h.symm), write_append, h]

/-- Storing back what is there changes nothing. -/
theorem write_read (m : Memory) (a : Int) (n : Nat) : write m a (read m a n) = m := by
  funext i
  by_cases h : a ≤ i ∧ i < a + n
  · obtain ⟨k, rfl⟩ : ∃ k : Nat, i = a + k := ⟨(i - a).toNat, by omega⟩
    have hk : k < n := by omega
    rw [write_of_inside (by simpa using hk), List.getD_eq_getElem?_getD, getElem?_read, if_pos hk]
    rfl
  · exact write_of_outside (by rw [length_read]; omega)

/-! ## Little endian -/

/-- The `w` little endian bytes of an integer, two's complement when it is negative. -/
def leBytes : Nat → Int → List UInt8
  | 0, _ => []
  | w + 1, v => UInt8.ofNat (v % 256).toNat :: leBytes w (v / 256)

/-- The unsigned integer that little endian bytes spell. -/
def leVal : List UInt8 → Int
  | [] => 0
  | b :: bs => b.toNat + 256 * leVal bs

@[simp] theorem length_leBytes (w : Nat) (v : Int) : (leBytes w v).length = w := by
  induction w generalizing v with
  | zero => rfl
  | succ w ih => simp only [leBytes, List.length_cons, ih]

/-- Spelling an integer in `w` bytes keeps it modulo `256 ^ w`. -/
theorem leVal_leBytes (w : Nat) (v : Int) : leVal (leBytes w v) = v % 256 ^ w := by
  induction w generalizing v with
  | zero => simp [leBytes, leVal]
  | succ w ih =>
    have hbyte : ((UInt8.ofNat (v % 256).toNat).toNat : Int) = v % 256 := by
      rw [UInt8.toNat_ofNat']
      omega
    simp only [leBytes, leVal, ih, hbyte]
    rw [pow_succ', Int.emod_def v (256 * 256 ^ w), Int.emod_def v 256, Int.emod_def (v / 256),
      Int.ediv_ediv_of_nonneg (by norm_num)]
    ring

/-- The bytes of a word are those of its low and of its high part. -/
theorem leBytes_append (p q : Nat) (v : Int) : leBytes (p + q) v = leBytes p v ++ leBytes q (v / 256 ^ p) := by
  induction p generalizing v with
  | zero => simp [leBytes]
  | succ p ih =>
    rw [Nat.add_right_comm, leBytes, ih, leBytes, List.cons_append, Int.ediv_ediv_of_nonneg (by norm_num), pow_succ']

/-- What is past the last byte is not spelled. -/
theorem leBytes_add_mul (w : Nat) (v q : Int) : leBytes w (v + 256 ^ w * q) = leBytes w v := by
  induction w generalizing v with
  | zero => rfl
  | succ w ih =>
    rw [leBytes, leBytes, pow_succ', Int.mul_assoc, Int.add_mul_emod_self_left, Int.add_mul_ediv_left _ _ (by norm_num), ih]

/-- 8-bit load. -/
def getUInt8 (m : Memory) (a : Int) : UInt8 := m a

/-- Unsigned 16-bit load. -/
def getUInt16 (m : Memory) (a : Int) : Int := leVal (read m a 2)

/-- Signed 32-bit load. -/
def getInt32 (m : Memory) (a : Int) : Int := i32 (leVal (read m a 4))

/-- Signed 64-bit load. -/
def getInt64 (m : Memory) (a : Int) : Int := i64 (leVal (read m a 8))

/-- Store of the `w` low bytes of a value. -/
def put (w : Nat) (m : Memory) (a : Int) (v : Int) : Memory := write m a (leBytes w v)

theorem put_of_outside {v : Int} (h : i < a ∨ a + w ≤ i) :
    put w m a v i = m i :=
  write_of_outside (by rw [length_leBytes]; exact h)

theorem read_put_of_disjoint {v : Int} (h : b + n ≤ a ∨ a + w ≤ b) :
    read (put w m a v) b n = read m b n :=
  read_write_of_disjoint (by rw [length_leBytes]; exact h)

theorem read_put_self (w : Nat) (m : Memory) (a v : Int) : read (put w m a v) a w = leBytes w v := by
  have h := read_write_self m a (leBytes w v)
  rwa [length_leBytes] at h

/-- Zeros over zeros. -/
theorem put_zero (h : ∀ i, a ≤ i → i < a + 8 → m i = 0) : put 8 m a 0 = m := by
  have hread : read m a 8 = leBytes 8 0 := (read_congr h).trans (show read (fun _ => 0) a 8 = leBytes 8 0 by rfl)
  rw [put, ← hread, write_read]

/-- 8-bit store. -/
def putUInt8 (m : Memory) (a : Int) (b : UInt8) : Memory := write m a [b]

theorem getUInt8_putUInt8 (m : Memory) (a : Int) (b : UInt8) : getUInt8 (putUInt8 m a b) a = b := by
  have h := write_of_inside (m := m) (a := a) (k := 0) (show 0 < [b].length from Nat.one_pos)
  simpa [getUInt8, putUInt8] using h

theorem putUInt8_of_outside {b : UInt8} (h : i < a ∨ a + 1 ≤ i) :
    putUInt8 m a b i = m i :=
  write_of_outside (by simpa using h)

theorem getUInt16_put (m : Memory) (a v : Int) : getUInt16 (put 2 m a v) a = v % 65536 := by
  rw [getUInt16, read_put_self, leVal_leBytes]
  norm_num

theorem getInt32_put (m : Memory) (a v : Int) : getInt32 (put 4 m a v) a = i32 v := by
  rw [getInt32, read_put_self, leVal_leBytes]
  unfold i32
  omega

theorem getInt64_put (m : Memory) (a v : Int) : getInt64 (put 8 m a v) a = i64 v := by
  rw [getInt64, read_put_self, leVal_leBytes]
  unfold i64
  omega

/-! A typed load depends only on its own bytes. -/

theorem getUInt16_congr (h : ∀ i, a ≤ i → i < a + 2 → m i = m' i) :
    getUInt16 m a = getUInt16 m' a :=
  congrArg leVal (read_congr h)

theorem getInt32_congr (h : ∀ i, a ≤ i → i < a + 4 → m i = m' i) :
    getInt32 m a = getInt32 m' a :=
  congrArg (fun bs => i32 (leVal bs)) (read_congr h)

theorem getInt32_zero (h : ∀ i, a ≤ i → i < a + 4 → m i = 0) : getInt32 m a = 0 := by
  have hzero : getInt32 (fun _ => 0) a = 0 := by
    simp [getInt32, read, leVal, i32]
  exact (getInt32_congr h).trans hzero

theorem getInt64_congr (h : ∀ i, a ≤ i → i < a + 8 → m i = m' i) :
    getInt64 m a = getInt64 m' a :=
  congrArg (fun bs => i64 (leVal bs)) (read_congr h)

theorem getUInt16_shift (h : ∀ i, a ≤ i → i < a + 2 → m (i + d) = m' i) :
    getUInt16 m (a + d) = getUInt16 m' a :=
  congrArg leVal (read_shift h)

theorem getInt32_shift (h : ∀ i, a ≤ i → i < a + 4 → m (i + d) = m' i) :
    getInt32 m (a + d) = getInt32 m' a :=
  congrArg (fun bs => i32 (leVal bs)) (read_shift h)

/-! ## Frames

What a sequence of stores leaves alone, composed store by store. -/

/-- The memories agree outside a range. -/
def AgreeOutside (a b : Int) (m m' : Memory) : Prop := ∀ i, i < a ∨ b ≤ i → m' i = m i

namespace AgreeOutside

variable {a b c d : Int} {m m' m'' : Memory}

theorem refl (a b : Int) (m : Memory) : AgreeOutside a b m m := fun _ _ => rfl

theorem trans (h : AgreeOutside a b m m') (h' : AgreeOutside a b m' m'') : AgreeOutside a b m m'' :=
  fun i hi => (h' i hi).trans (h i hi)

theorem mono (h : AgreeOutside a b m m') (hin : c ≤ a ∧ b ≤ d) : AgreeOutside c d m m' := by
  intro i hi
  exact h i (by omega)

theorem write (m : Memory) (a : Int) (bs : List UInt8) : AgreeOutside a (a + bs.length) m (Machine.write m a bs) :=
  fun _ hi => write_of_outside hi

theorem put (w : Nat) (m : Memory) (a v : Int) : AgreeOutside a (a + w) m (Machine.put w m a v) :=
  fun _ hi => put_of_outside hi

theorem putUInt8 (m : Memory) (a : Int) (v : UInt8) : AgreeOutside a (a + 1) m (Machine.putUInt8 m a v) :=
  fun _ hi => putUInt8_of_outside hi

theorem getUInt16 (h : AgreeOutside a b m m') (hc : c + 2 ≤ a ∨ b ≤ c) :
    Machine.getUInt16 m' c = Machine.getUInt16 m c :=
  getUInt16_congr fun i _ _ => h i (by omega)

theorem getInt32 (h : AgreeOutside a b m m') (hc : c + 4 ≤ a ∨ b ≤ c) :
    Machine.getInt32 m' c = Machine.getInt32 m c :=
  getInt32_congr fun i _ _ => h i (by omega)

theorem read (h : AgreeOutside a b m m') (hc : c + n ≤ a ∨ b ≤ c) :
    Machine.read m' c n = Machine.read m c n :=
  read_congr fun i _ _ => h i (by omega)

end AgreeOutside

section Outside

variable {a c v : Int} {m : Memory} {w : Nat}

theorem getInt32_put_of_outside (h : c + 4 ≤ a ∨ a + w ≤ c) : getInt32 (put w m a v) c = getInt32 m c :=
  (AgreeOutside.put w m a v).getInt32 h

theorem getUInt16_put_of_outside (h : c + 2 ≤ a ∨ a + w ≤ c) : getUInt16 (put w m a v) c = getUInt16 m c :=
  (AgreeOutside.put w m a v).getUInt16 h

theorem getInt32_putUInt8_of_outside {v : UInt8} (h : c + 4 ≤ a ∨ a + 1 ≤ c) :
    getInt32 (putUInt8 m a v) c = getInt32 m c :=
  (AgreeOutside.putUInt8 m a v).getInt32 h

end Outside

theorem getInt32_range (m : Memory) (a : Int) : I32 (getInt32 m a) := i32_range _

end Machine
