import AeronGo.Laws.Publication.Offer
import AeronGo.Stream

/-!
# Laws of claims

Through a claim's buffer a pending slot becomes a data slot with the bytes that are in it
(`Claim.commit_ok`), becomes padding (`Claim.abort_ok`), or stays pending with other bytes
(`Claim.fill_at`). A claim's buffer is a part of the stream (`Claim.Placed`), and what is stored through
it changes nothing else.
-/

namespace AeronGo.Stream.Claim

open Machine Util Atomic LogBuffer

variable {c : Claim} {log : Log} {sessionId : Int}

section Stores

variable (hat : (Slot.pending c.frameLength).At sessionId (c.buffer log).bytes 0)

include hat

/-- The owner's stores leave the claim pending. -/
theorem fill_at {index : Int} {bytes : List UInt8} (hindex : 24 ≤ index) :
    (Slot.pending c.frameLength).At sessionId (write (c.buffer log).bytes index bytes) 0 := by
  obtain ⟨hge, hlength, htype, hflags, hsession⟩ := hat
  have hframe := AgreeOutside.write (c.buffer log).bytes index bytes
  refine ⟨hge, ?_, ?_, ?_, ?_⟩
  · rw [hframe.getInt32 (by omega), hlength]
  · rw [hframe.getUInt16 (by omega), htype]
  · exact (hframe _ (by omega)).trans hflags
  · rw [hframe.getInt32 (by omega), hsession]

variable (hsmall : c.frameLength ≤ 1073741824)

include hsmall

/-- A committed claim is a data frame with the bytes of the claim. -/
theorem commit_ok :
    ∃ b : Buffer, c.commit log = .ok (c.setBuffer log b) ∧
      (Slot.data unfragmented (c.message log)).At sessionId b.bytes 0 ∧
      getInt32 b.bytes 20 = getInt32 (c.buffer log).bytes 20 ∧
      AgreeOutside 0 c.frameLength (c.buffer log).bytes b.bytes := by
  obtain ⟨hge, hlength, htype, hflags, hsession⟩ := hat
  have hframe := AgreeOutside.put 4 (c.buffer log).bytes 0 c.frameLength
  have hcount : (c.message log).length = (c.frameLength - 32).toNat := length_read _ _ _
  refine ⟨⟨put 4 (c.buffer log).bytes 0 c.frameLength, c.frameLength⟩, ?_, ⟨?_, ?_, ?_, ?_, ?_⟩,
    hframe.getInt32 (by omega), hframe.mono ⟨Int.le_refl 0, by omega⟩⟩
  · have hs : Addressable (c.buffer log) := hsmall
    rw [commit, Buffer.putInt32_ok hs (Int.le_refl 0) (by show _ ≤ c.frameLength; omega)]
    rfl
  · rw [getInt32_put, i32_eq (by omega), hcount]
    omega
  · rw [hframe.getUInt16 (by omega), htype]
  · exact (hframe _ (by omega)).trans hflags
  · rw [hframe.getInt32 (by omega), hsession]
  · rw [hframe.read (by omega), hcount]
    rfl

/-- An aborted claim is padding. -/
theorem abort_ok :
    ∃ b : Buffer, c.abort log = .ok (c.setBuffer log b) ∧ (Slot.padding c.frameLength).At sessionId b.bytes 0 ∧
      getInt32 b.bytes 20 = getInt32 (c.buffer log).bytes 20 ∧
      AgreeOutside 0 c.frameLength (c.buffer log).bytes b.bytes := by
  have hge := hat.1
  have hs : Addressable (c.buffer log) := hsmall
  have hlen : 8 ≤ (c.buffer log).length := by
    show _ ≤ c.frameLength
    omega
  obtain ⟨m, hm⟩ : ∃ m, m = put 2 (c.buffer log).bytes 6 typePad := ⟨_, rfl⟩
  have htypeFrame : AgreeOutside 6 8 (c.buffer log).bytes m := by
    rw [hm]
    exact AgreeOutside.put 2 (c.buffer log).bytes 6 typePad
  have hlengthFrame := AgreeOutside.put 4 m 0 c.frameLength
  refine ⟨⟨put 4 m 0 c.frameLength, c.frameLength⟩, ?_, ⟨hge, ?_, ?_⟩,
    (hlengthFrame.getInt32 (by omega)).trans (htypeFrame.getInt32 (by omega)), ?_⟩
  · have hs' : Addressable ⟨m, c.frameLength⟩ := hsmall
    have hput : (⟨m, c.frameLength⟩ : Buffer).putInt32 0 c.frameLength = _ :=
      Buffer.putInt32_ok hs' (Int.le_refl 0) (by show _ ≤ c.frameLength; omega) c.frameLength
    rw [abort, Buffer.putUInt16_ok hs (by decide) (by omega), ← hm]
    show ((⟨m, c.frameLength⟩ : Buffer).putInt32 0 c.frameLength >>= fun b => .ok (c.setBuffer log b)) = _
    rw [hput]
    rfl
  · rw [getInt32_put, i32_eq (by omega)]
  · rw [hlengthFrame.getUInt16 (by omega), hm]
    exact getUInt16_put _ _ _
  · exact (htypeFrame.mono (by omega)).trans (hlengthFrame.mono ⟨Int.le_refl 0, by omega⟩)

end Stores

/-! ## Where a claim lies in the stream -/

/-- The claim's buffer lies at a position, within one term. -/
structure Placed (p : StreamParams) (c : Claim) (start space : Int) : Prop where
  index : c.termIndex = start / p.termLength % 3
  offset : c.offset = start % p.termLength
  inside : start % p.termLength + space ≤ p.termLength

section Placed

variable {p : StreamParams} {start space : Int} (h : Placed p c start space)

include h

/-- The bytes of a partition at a position of the claim. -/
theorem Placed.bytes_at (log : Log) {i : Int} (lo : 0 ≤ i) (hi : i < space) :
    log.bytes p (i + start) = log.terms c.termIndex (c.offset + i) := by
  have hpos := p.termLength_pos
  have hmod := Int.emod_nonneg start (show p.termLength ≠ 0 by omega)
  have hin := h.inside
  have hsplit := Int.mul_ediv_add_emod start p.termLength
  rw [Int.mul_comm] at hsplit
  have hplace : i + start = start / p.termLength * p.termLength + (start % p.termLength + i) := by omega
  rw [hplace, Log.bytes_at p log _ (by omega) (by omega), h.index, h.offset]

theorem Placed.buffer_bytes (log : Log) {i : Int} (lo : 0 ≤ i) (hi : i < space) :
    (c.buffer log).bytes i = log.bytes p (i + start) := (h.bytes_at log lo hi).symm

theorem Placed.setBuffer_bytes (log : Log) (b : Buffer) {i : Int} (lo : 0 ≤ i) (hi : i < space) :
    (c.setBuffer log b).bytes p (i + start) = b.bytes i := by
  rw [h.bytes_at _ lo hi]
  show (if c.termIndex = c.termIndex then fun i => b.bytes (i - c.offset) else _) (c.offset + i) = _
  rw [if_pos rfl]
  exact congrArg b.bytes (by omega)

/-- Stores through a claim change its own bytes only. -/
theorem Placed.setBuffer_same {b : Buffer} (hagree : AgreeOutside 0 space (c.buffer log).bytes b.bytes) {x : Int}
    (lo : (start / p.termLength - 2) * p.termLength ≤ x) (hi : x < (start / p.termLength + 3) * p.termLength)
    (hx : x < start ∨ start + space ≤ x) : (c.setBuffer log b).bytes p x = log.bytes p x := by
  have hsplit := Int.mul_ediv_add_emod start p.termLength
  rw [Int.mul_comm] at hsplit
  refine Log.bytes_agree (m := fun i => b.bytes (i - c.offset)) (a := c.offset) (b := c.offset + space) ?_ ?_ lo hi ?_
  · rw [← h.index]
    rfl
  · intro i hi
    rw [← h.index]
    have hbyte : b.bytes (i - c.offset) = _ := hagree (i - c.offset) (by omega)
    exact hbyte.trans (congrArg (log.terms c.termIndex) (by omega))
  · rw [h.offset]
    omega

end Placed

end AeronGo.Stream.Claim
