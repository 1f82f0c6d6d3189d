import AeronGo.Machine.Memory

/-!
# Bytes in memory

`Lays m a bs`: the bytes `bs` lie in the memory from `a` on. What lies in parts lies as a whole, a store lays its
bytes down and leaves those that it does not touch, and words are read off where their bytes lie.
-/

namespace Machine

/-- The bytes lie at an address. -/
def Lays (m : Memory) (a : Int) (bs : List UInt8) : Prop := read m a bs.length = bs

variable {m m' : Memory} {a b : Int} {xs ys bs : List UInt8}

theorem lays_append : Lays m a (xs ++ ys) ↔ Lays m a xs ∧ Lays m (a + xs.length) ys := by
  rw [Lays, Lays, Lays, List.length_append, read_append]
  constructor
  · intro h
    exact List.append_inj h (length_read _ _ _)
  · rintro ⟨hx, hy⟩
    rw [hx, hy]

theorem Lays.write (m : Memory) (a : Int) (bs : List UInt8) : Lays (Machine.write m a bs) a bs := read_write_self m a bs

theorem Lays.read {n : Nat} (h : Lays m a bs) (hn : n = bs.length) : Machine.read m a n = bs := by
  rw [hn]
  exact h

theorem Lays.getInt32 {v : Int} (h : Lays m a (leBytes 4 v)) : Machine.getInt32 m a = i32 v := by
  have hread : Machine.read m a 4 = leBytes 4 v := h.read (length_leBytes 4 v).symm
  rw [← getInt32_put m a v, Machine.getInt32, Machine.getInt32, hread, read_put_self]

end Machine
