import AeronGo.Atomic.Buffer

/-!
# Laws of buffers

Inside the bounds an access is the memory's own (`Buffer.getInt32_ok` and its companions), and `Memcpy`'s three loops
together are one store of the source's bytes (`memcpy_eq`). A buffer has one value at a time; how accesses of several
threads are ordered is left open.
-/

namespace AeronGo.Atomic

open Machine

/-- What has returned goes on. -/
theorem ok_bind {α β : Type} (a : α) (f : α → Except Stop β) : (Except.ok a >>= f) = f a := rfl

theorem ok_of_bind {α β : Type} {x : Except Stop α} {f : α → Except Stop β} {b : β} (h : (x >>= f) = .ok b) :
    ∃ a, x = .ok a ∧ f a = .ok b := by
  cases x with
  | error e => cases h
  | ok a => exact ⟨a, rfl, h⟩

theorem ok_of_toOption {α : Type} {x : Except Stop α} {a : α} (h : x.toOption = some a) : x = .ok a := by
  cases x with
  | error e => cases h
  | ok b =>
    cases h
    rfl

/-- A buffer small enough for 32-bit offsets not to overflow, as every term and claim is. -/
def Addressable (b : Buffer) : Prop := b.length ≤ 1073741824

theorem Addressable.lt {b : Buffer} (h : Addressable b) : b.length < 2147483648 := Int.lt_of_le_of_lt h (by decide)

theorem boundsCheck_ok {index length myLength : Int} (lo : 0 ≤ index) (hlen : -2147483648 ≤ length)
    (h : index + length ≤ myLength) (hsmall : myLength < 2147483648) :
    boundsCheck index length myLength = .ok () := by
  have hword : i32 (index + length) = index + length := i32_eq (by omega)
  rw [boundsCheck, hword, if_neg (by omega)]

section Access

variable {b : Buffer} {offset : Int} (hs : Addressable b) (lo : 0 ≤ offset)

include hs lo

theorem Buffer.getUInt8_ok (h : offset + 1 ≤ b.length) :
    b.getUInt8 offset = .ok (Machine.getUInt8 b.bytes offset) := by
  rw [Buffer.getUInt8, boundsCheck_ok lo (by decide) h hs.lt]
  rfl

theorem Buffer.getUInt16_ok (h : offset + 2 ≤ b.length) :
    b.getUInt16 offset = .ok (Machine.getUInt16 b.bytes offset) := by
  rw [Buffer.getUInt16, boundsCheck_ok lo (by decide) h hs.lt]
  rfl

theorem Buffer.getInt32_ok (h : offset + 4 ≤ b.length) :
    b.getInt32 offset = .ok (Machine.getInt32 b.bytes offset) := by
  rw [Buffer.getInt32, boundsCheck_ok lo (by decide) h hs.lt]
  rfl

theorem Buffer.putUInt8_ok (h : offset + 1 ≤ b.length) (value : UInt8) :
    b.putUInt8 offset value = .ok { b with bytes := Machine.putUInt8 b.bytes offset value } := by
  rw [Buffer.putUInt8, boundsCheck_ok lo (by decide) h hs.lt]
  rfl

theorem Buffer.putUInt16_ok (h : offset + 2 ≤ b.length) (value : Int) :
    b.putUInt16 offset value = .ok { b with bytes := put 2 b.bytes offset value } := by
  rw [Buffer.putUInt16, boundsCheck_ok lo (by decide) h hs.lt]
  rfl

theorem Buffer.putInt32_ok (h : offset + 4 ≤ b.length) (value : Int) :
    b.putInt32 offset value = .ok { b with bytes := put 4 b.bytes offset value } := by
  rw [Buffer.putInt32, boundsCheck_ok lo (by decide) h hs.lt]
  rfl

theorem Buffer.putInt64_ok (h : offset + 8 ≤ b.length) (value : Int) :
    b.putInt64 offset value = .ok { b with bytes := put 8 b.bytes offset value } := by
  rw [Buffer.putInt64, boundsCheck_ok lo (by decide) h hs.lt]
  rfl

theorem Buffer.writeBytes_ok {length : Int} (hlen : 0 ≤ length) (h : offset + length ≤ b.length) :
    b.writeBytes offset length = .ok (Machine.read b.bytes offset length.toNat) := by
  rw [Buffer.writeBytes, boundsCheck_ok lo (by omega) h hs.lt, ok_bind, if_neg (Int.not_lt.mpr hlen)]
  rfl

end Access

/-! ## Long buffers -/

section Long

variable {b : Buffer} {offset : Int} (hs : b.length < 2147483648) (lo : 0 ≤ offset)

include hs lo

theorem Buffer.getInt64_within (h : offset + 8 ≤ b.length) :
    b.getInt64 offset = .ok (Machine.getInt64 b.bytes offset) := by
  rw [Buffer.getInt64, boundsCheck_ok lo (by decide) h hs]
  rfl

theorem Buffer.putInt32_within (h : offset + 4 ≤ b.length) (value : Int) :
    b.putInt32 offset value = .ok { b with bytes := put 4 b.bytes offset value } := by
  rw [Buffer.putInt32, boundsCheck_ok lo (by decide) h hs]
  rfl

theorem Buffer.putInt64_within (h : offset + 8 ≤ b.length) (value : Int) :
    b.putInt64 offset value = .ok { b with bytes := put 8 b.bytes offset value } := by
  rw [Buffer.putInt64, boundsCheck_ok lo (by decide) h hs]
  rfl

end Long

/-! ## Memcpy -/

/-- The store of the first bytes of a source. -/
def copied (m : Memory) (dest : Int) (src : Memory) (srcIndex i : Int) : Memory :=
  write m dest (Machine.read src srcIndex i.toNat)

/-- A store that goes on where the last one ended. -/
theorem copied_add (m : Memory) (dest : Int) (src : Memory) (srcIndex : Int) {i : Int} (lo : 0 ≤ i) (w : Nat) :
    write (copied m dest src srcIndex i) (dest + i) (Machine.read src (srcIndex + i) w) =
      copied m dest src srcIndex (i + w) := by
  obtain ⟨n, rfl⟩ := Int.eq_ofNat_of_zero_le lo
  have hsum : ((n : Int) + (w : Int)).toNat = n + w := by omega
  unfold copied
  rw [hsum, Int.toNat_natCast, read_append, write_append, length_read]

/-- A loop of `Memcpy` copies whole words until its index reaches its bound, and stays within the
length if every word it starts does. -/
theorem copyWords_eq (m : Memory) (dest : Int) (src : Memory) (srcIndex : Int) {bound length : Int} {w : Nat}
    (hw : 0 < w) (hin : ∀ i, 0 ≤ i → i < bound → i + w ≤ length) :
    ∀ (fuel : Nat) (i : Int), 0 ≤ i → i ≤ length → bound - i ≤ fuel →
      ∃ j, copyWords w dest src srcIndex bound fuel i (copied m dest src srcIndex i) =
        (j, copied m dest src srcIndex j) ∧ i ≤ j ∧ j ≤ length ∧ bound ≤ j := by
  intro fuel
  induction fuel with
  | zero =>
    intro i lo hi hfuel
    exact ⟨i, rfl, Int.le_refl i, hi, by omega⟩
  | succ fuel ih =>
    intro i lo hi hfuel
    unfold copyWords
    split
    next hlt =>
      rw [copied_add m dest src srcIndex lo w]
      obtain ⟨j, hj, hle, hin', hbound⟩ := ih (i + w) (by omega) (hin i lo hlt) (by omega)
      exact ⟨j, hj, by omega, hin', hbound⟩
    next hge => exact ⟨i, rfl, Int.le_refl i, hi, by omega⟩

/-- **`Memcpy` copies the bytes**, whatever the batches; of a negative length, none. -/
theorem memcpy_eq (m : Memory) (dest : Int) (src : Memory) (srcIndex length : Int) :
    memcpy m dest src srcIndex length = write m dest (Machine.read src srcIndex length.toNat) := by
  have hstart : m = copied m dest src srcIndex 0 := by
    funext k
    exact (write_of_outside (by simp [Machine.read]; omega)).symm
  by_cases lo : 0 ≤ length
  · have hfuel : (length.toNat : Int) = length := Int.toNat_of_nonneg lo
    have hwords : ∀ i, 0 ≤ i → i < length / 8 → i + (8 : Nat) ≤ length := by
      intro i _ _
      omega
    obtain ⟨i, hi, hilo, hile, _⟩ := copyWords_eq m dest src srcIndex (by decide) hwords length.toNat 0
      (Int.le_refl 0) lo (by omega)
    have hhalves : ∀ k, 0 ≤ k → k < (length - i) / 4 → k + (4 : Nat) ≤ length := by
      intro k _ _
      omega
    obtain ⟨j, hj, hij, hjle, _⟩ := copyWords_eq m dest src srcIndex (by decide) hhalves length.toNat i hilo
      hile (by omega)
    have hbytes : ∀ k, 0 ≤ k → k < length → k + (1 : Nat) ≤ length := by
      intro k _ _
      omega
    obtain ⟨k, hk, _, hkle, hkge⟩ := copyWords_eq m dest src srcIndex (by decide) hbytes length.toNat j
      (by omega) hjle (by omega)
    have hend : k = length := by omega
    rw [← hstart] at hi
    unfold memcpy
    rw [hi]
    simp only [hj, hk, hend]
    rfl
  · have hnone : length.toNat = 0 := by omega
    simp only [memcpy, hnone, copyWords]
    exact hstart

section Pointers

open Util.Pointer (copyLoop)

variable {m : Memory} {dest src length : Int}

/-- A loop between two regions that are apart reads what the source had before the first word: no word
is stored there. -/
theorem copyLoop_eq (hi : length < 2147483648) (apart : dest + length ≤ src ∨ src + length ≤ dest) (w : Nat) (bound : Int)
    (hin : ∀ i, 0 ≤ i → i < bound → i + w ≤ length) (fuel : Nat) :
    ∀ (i : Int) (m' : Memory), 0 ≤ i → i ≤ length → (∀ a, src ≤ a → a < src + length → m' a = m a) →
      ∃ (j : Int) (m'' : Memory), copyLoop w dest src bound fuel i m' = (j, m'') ∧
        copyWords w dest m src bound fuel i m' = (j, m'') ∧ 0 ≤ j ∧ j ≤ length ∧
        ∀ a, src ≤ a → a < src + length → m'' a = m a := by
  induction fuel with
  | zero => exact fun i m' lo hle hsrc => ⟨i, m', rfl, rfl, lo, hle, hsrc⟩
  | succ fuel ih =>
    intro i m' lo hle hsrc
    unfold copyLoop copyWords
    split
    next hlt =>
      have hend := hin i lo hlt
      have hread : Machine.read m' (src + i) w = Machine.read m (src + i) w :=
        read_congr fun a hlo hhi => hsrc a (by omega) (by omega)
      rw [i32_eq (by omega), hread]
      refine ih (i + w) _ (by omega) hend fun a hlo hhi => ?_
      rw [write_of_outside (by rw [length_read]; omega)]
      exact hsrc a hlo hhi
    next => exact ⟨i, m', rfl, rfl, lo, hle, hsrc⟩

/-- On one memory `Memcpy` is the copy out of the memory as it was. -/
theorem pointer_memcpy_eq (m : Memory) (lo : 0 ≤ length) (hi : length < 2147483648)
    (apart : dest + length ≤ src ∨ src + length ≤ dest) :
    Util.Pointer.memcpy dest src length m = memcpy m dest m src length := by
  obtain ⟨i, m₁, hloop₁, hwords₁, hilo, hile, hsrc₁⟩ := copyLoop_eq (m := m) hi apart 8 (length / 8)
    (by intro i _ _; omega) length.toNat 0 m (Int.le_refl 0) lo fun _ _ _ => rfl
  have hleft : i32 (length - i) = length - i := i32_eq (by omega)
  obtain ⟨j, m₂, hloop₂, hwords₂, hjlo, hjle, hsrc₂⟩ := copyLoop_eq hi apart 4 ((length - i) / 4)
    (by intro i _ _; omega) length.toNat i m₁ hilo hile hsrc₁
  obtain ⟨k, m₃, hloop₃, hwords₃, -⟩ := copyLoop_eq hi apart 1 length
    (by intro i _ _; omega) length.toNat j m₂ hjlo hjle hsrc₂
  simp only [Util.Pointer.memcpy, memcpy, hloop₁, hwords₁, hleft, hloop₂, hwords₂, hloop₃, hwords₃]

/-- **`Memcpy` copies exactly its length** between regions that do not overlap, wherever they lie. -/
theorem memcpy_copies (m : Memory) (dest src length : Int) (lo : 0 ≤ length) (hi : length < 2147483648)
    (apart : dest + length ≤ src ∨ src + length ≤ dest) :
    (∀ k, 0 ≤ k → k < length → Util.Pointer.memcpy dest src length m (dest + k) = m (src + k)) ∧
      ∀ a, a < dest ∨ dest + length ≤ a → Util.Pointer.memcpy dest src length m a = m a := by
  rw [pointer_memcpy_eq m lo hi apart, memcpy_eq m dest m src]
  refine ⟨fun k hlo hhi => ?_, fun a ha => write_of_outside (by rw [length_read]; omega)⟩
  obtain ⟨n, rfl⟩ := Int.eq_ofNat_of_zero_le hlo
  rw [write_of_inside (by rw [length_read]; omega), List.getD_eq_getElem?_getD, getElem?_read, if_pos (by omega)]
  rfl

/-- Eleven bytes between odd addresses: a word of eight and three single bytes. -/
theorem memcpy_copies_eleven :
    Util.Pointer.memcpy 21 3 11 (fun a => UInt8.ofNat a.toNat) 31 = 13 ∧
      Util.Pointer.memcpy 21 3 11 (fun a => UInt8.ofNat a.toNat) 32 = 32 :=
  have hcopies := memcpy_copies (fun a => UInt8.ofNat a.toNat) 21 3 11 (by decide) (by decide) (by decide)
  ⟨hcopies.1 10 (by decide) (by decide), hcopies.2 32 (by decide)⟩

end Pointers

theorem Buffer.putBytes_ok {b src : Buffer} {index srcIndex length : Int} (hs : Addressable b) (hsrc : src.length < 2147483648)
    (lo : 0 ≤ index) (h : index + length ≤ b.length) (srcLo : 0 ≤ srcIndex)
    (hsrcEnd : srcIndex + length ≤ src.length) (hlen : 0 ≤ length) :
    b.putBytes index src srcIndex length =
      .ok { b with bytes := write b.bytes index (Machine.read src.bytes srcIndex length.toNat) } := by
  rw [Buffer.putBytes, boundsCheck_ok lo (by omega) h hs.lt, boundsCheck_ok srcLo (by omega) hsrcEnd hsrc,
    memcpy_eq]
  rfl

/-- A negative length passes the checks, and nothing is copied. -/
theorem Buffer.putBytes_negative {b src : Buffer} {index srcIndex length : Int} (hs : Addressable b)
    (hsrc : src.length < 2147483648) (lo : 0 ≤ index) (h : index ≤ b.length) (srcLo : 0 ≤ srcIndex)
    (hsrcEnd : srcIndex ≤ src.length) (hlen : -2147483648 ≤ length) (hneg : length < 0) :
    b.putBytes index src srcIndex length = .ok b := by
  have hnone : length.toNat = 0 := by omega
  rw [Buffer.putBytes, boundsCheck_ok lo hlen (by omega) hs.lt, boundsCheck_ok srcLo hlen (by omega) hsrc]
  simp only [memcpy, hnone, copyWords]
  rfl

end AeronGo.Atomic
