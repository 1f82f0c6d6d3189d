import AeronGo.Machine.Memory

/-!
# Readers of bytes

A reader takes what it needs from the front of a list of bytes and returns the rest, or fails. A
reader is `Stable` if bytes behind those it was given do not change what it reads: such a reader of a
message fails on every proper prefix of it (`Stable.short`), and readers put together from stable ones
are stable. `Reads` says that a reader gives a value back from the bytes written for it, whatever
follows them.
-/

namespace Machine

universe u

/-- Take a value from the front, or fail. -/
def Reader (ε : Type) (α : Type u) := List UInt8 → Except ε (α × List UInt8)

namespace Reader

variable {ε : Type} {α β : Type}

instance : Monad (Reader ε) where
  pure a := fun xs => .ok (a, xs)
  bind r f := fun xs =>
    match r xs with
    | .ok (a, rest) => f a rest
    | .error e => .error e

/-- Fail. -/
def fail (e : ε) : Reader ε α := fun _ => .error e

/-- The next `n` bytes; `eof` is the error if there are fewer. -/
def take (eof : ε) (n : Nat) : Reader ε (List UInt8) := fun xs =>
  if n ≤ xs.length then .ok (xs.take n, xs.drop n) else .error eof

/-- Drop up to `n` bytes. -/
def skip (n : Nat) : Reader ε Unit := fun xs => .ok ((), xs.drop n)

/-- A little-endian word of `w` bytes, as an unsigned number. -/
def word (eof : ε) (w : Nat) : Reader ε Int := do return leVal (← take eof w)

theorem bind_apply (r : Reader ε α) (f : α → Reader ε β) (xs : List UInt8) :
    (r >>= f) xs = match r xs with
      | .ok (a, rest) => f a rest
      | .error e => .error e := rfl

theorem bind_of_ok {r : Reader ε α} {f : α → Reader ε β} {xs rest : List UInt8} {a : α} (h : r xs = .ok (a, rest)) :
    (r >>= f) xs = f a rest := by
  rw [bind_apply, h]

/-! ## What follows -/

/-- Bytes that follow do not change what is read. -/
def Stable (r : Reader ε α) : Prop :=
  ∀ xs a rest more, r xs = .ok (a, rest) → r (xs ++ more) = .ok (a, rest ++ more)

theorem Stable.pure (a : α) : Stable (Pure.pure a : Reader ε α) := by
  rintro xs b rest more ⟨⟩
  rfl

theorem Stable.fail (e : ε) : Stable (fail e : Reader ε α) := by
  rintro xs b rest more ⟨⟩

theorem Stable.bind {r : Reader ε α} {f : α → Reader ε β} (hr : Stable r) (hf : ∀ a, Stable (f a)) :
    Stable (r >>= f) := by
  intro xs b rest more h
  rw [bind_apply] at h
  cases hx : r xs with
  | error e =>
    rw [hx] at h
    cases h
  | ok pair =>
    obtain ⟨a, ys⟩ := pair
    rw [hx] at h
    rw [bind_of_ok (hr xs a ys more hx)]
    exact hf a ys b rest more h

theorem Stable.take (eof : ε) (n : Nat) : Stable (take eof n) := by
  intro xs a rest more h
  unfold Reader.take at h ⊢
  split at h
  next hn =>
    cases h
    have hlen : n ≤ (xs ++ more).length := by rw [List.length_append]; omega
    rw [if_pos hlen, List.take_append_of_le_length hn, List.drop_append_of_le_length hn]
  next => cases h

theorem Stable.word (eof : ε) (w : Nat) : Stable (word eof w) :=
  (Stable.take eof w).bind fun _ => Stable.pure _

/-- What a stable reader reads to the last byte it cannot read from less. -/
theorem Stable.short {r : Reader ε α} (hr : Stable r) {xs more : List UInt8} {a : α} (hmore : more ≠ [])
    (h : r (xs ++ more) = .ok (a, [])) : ∃ e, r xs = .error e := by
  cases hx : r xs with
  | error e => exact ⟨e, rfl⟩
  | ok pair =>
    obtain ⟨b, rest⟩ := pair
    have hall := hr xs b rest more hx
    rw [h, Except.ok.injEq, Prod.mk.injEq] at hall
    exact absurd (List.append_eq_nil_iff.mp hall.2.symm).2 hmore

/-! ## What was written -/

/-- The reader gives a value back from bytes, and leaves what follows them. -/
def Reads (r : Reader ε α) (bytes : List UInt8) (a : α) : Prop := ∀ rest, r (bytes ++ rest) = .ok (a, rest)

theorem Reads.pure (a : α) : Reads (Pure.pure a : Reader ε α) [] a := fun _ => rfl

theorem Reads.bind {r : Reader ε α} {f : α → Reader ε β} {xs ys : List UInt8} {a : α} {b : β} (hr : Reads r xs a)
    (hf : Reads (f a) ys b) : Reads (r >>= f) (xs ++ ys) b := by
  intro rest
  rw [List.append_assoc, bind_of_ok (hr (ys ++ rest))]
  exact hf rest

/-- A last step that reads nothing more. -/
theorem Reads.andThen {r : Reader ε α} {f : α → Reader ε β} {xs : List UInt8} {a : α} {b : β} (hr : Reads r xs a)
    (hf : Reads (f a) [] b) : Reads (r >>= f) xs b := by
  have h := hr.bind hf
  rwa [List.append_nil] at h

theorem Reads.take (eof : ε) (bytes : List UInt8) : Reads (take eof bytes.length) bytes bytes := by
  intro rest
  unfold Reader.take
  have hlen : bytes.length ≤ (bytes ++ rest).length := by rw [List.length_append]; omega
  rw [if_pos hlen, List.take_left, List.drop_left]

theorem Reads.word (eof : ε) (w : Nat) (v : Int) : Reads (word eof w) (leBytes w v) (v % 256 ^ w) := by
  have htake := Reads.take eof (leBytes w v)
  rw [length_leBytes] at htake
  refine htake.andThen ?_
  rw [leVal_leBytes]
  exact Reads.pure _

end Reader

end Machine
