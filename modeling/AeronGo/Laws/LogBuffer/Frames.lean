import AeronGo.LogBuffer.Frames
import AeronGo.Laws.LogBuffer.Descriptor
import AeronGo.Machine.Chain

/-!
# The frames of an append fill what it claims

The space of a message is `messageSpace`: full frames of the MTU and one aligned frame for the rest.
`fragmentedLength` is that space in 32 bits, and the loop writes frames that form a chain over it
(`fragmentLoop_chain`), so the frames of a fragmented append leave no gap and stay within the claim.
-/

namespace AeronGo.LogBuffer

open Machine Util

variable {length maxPayload : Int}

/-- A payload and its header, aligned. -/
theorem alignedFrameLength_eq (lo : 0 ≤ length) (hi : length ≤ 2147483584) :
    alignedFrameLength length = (length + 63) / 32 * 32 := by
  have hword : i32 (length + headerLength) = length + 32 := i32_eq (by unfold headerLength; omega)
  unfold alignedFrameLength frameAlignment
  rw [hword, alignInt32_eq (by omega) (by omega)]
  omega

/-- The space of a message in frames of at most `maxPayload` payload bytes. -/
def messageSpace (maxPayload length : Int) : Int :=
  length / maxPayload * (maxPayload + 32) +
    if 0 < length % maxPayload then (length % maxPayload + 63) / 32 * 32 else 0

section Space

variable {maxPayload length : Int}

/-- A full frame more. -/
theorem messageSpace_add (hm : 32 ≤ maxPayload) :
    messageSpace maxPayload (length + maxPayload) = maxPayload + 32 + messageSpace maxPayload length := by
  unfold messageSpace
  rw [Int.add_emod_right, Int.add_ediv_of_dvd_right (dvd_refl maxPayload), Int.ediv_self (by omega)]
  ring

/-- At most one frame. -/
theorem messageSpace_single (hm : 32 ≤ maxPayload) (ha : maxPayload % 32 = 0) (lo : 0 < length)
    (hi : length ≤ maxPayload) : messageSpace maxPayload length = (length + 63) / 32 * 32 := by
  unfold messageSpace
  by_cases heq : length = maxPayload
  · rw [heq, Int.ediv_self (by omega), Int.emod_self, if_neg (by omega)]
    omega
  · rw [Int.ediv_eq_zero_of_lt (by omega) (by omega), Int.emod_eq_of_lt (by omega) (by omega), if_pos lo]
    omega

theorem messageSpace_bounds (hm : 32 ≤ maxPayload) (lo : 0 ≤ length) :
    length ≤ messageSpace maxPayload length ∧ messageSpace maxPayload length ≤ 2 * length + 64 := by
  have hdiv := Int.mul_ediv_add_emod length maxPayload
  have hmod := Int.emod_nonneg length (show maxPayload ≠ 0 by omega)
  have hq := Int.ediv_nonneg lo (show 0 ≤ maxPayload by omega)
  unfold messageSpace
  generalize length / maxPayload = q at *
  generalize length % maxPayload = r at *
  have hcomm : maxPayload * q = q * maxPayload := Int.mul_comm _ _
  have hexpand : q * (maxPayload + 32) = q * maxPayload + q * 32 := Int.mul_add _ _ _
  have hge : q * 32 ≤ q * maxPayload := mul_le_mul_of_nonneg_left hm hq
  split <;> omega

theorem messageSpace_aligned (length : Int) (ha : maxPayload % 32 = 0) :
    messageSpace maxPayload length % 32 = 0 := by
  have hfull : length / maxPayload * (maxPayload + 32) % 32 = 0 := by
    rw [Int.mul_emod, show (maxPayload + 32) % 32 = 0 by omega]
    simp
  unfold messageSpace
  split <;> omega

/-- A message is its first frame and the rest. -/
theorem messageSpace_step (hm : 32 ≤ maxPayload) (ha : maxPayload % 32 = 0) (lo : 0 < length) :
    messageSpace maxPayload length = (min length maxPayload + 63) / 32 * 32 +
      messageSpace maxPayload (length - min length maxPayload) := by
  by_cases hlast : length ≤ maxPayload
  · have hzero : messageSpace maxPayload 0 = 0 := by simp [messageSpace]
    rw [min_eq_left hlast, messageSpace_single hm ha lo hlast, Int.sub_self, hzero, Int.add_zero]
  · have hadd : messageSpace maxPayload (length - maxPayload + maxPayload) = _ := messageSpace_add hm
    rw [Int.sub_add_cancel] at hadd
    rw [min_eq_right (by omega), hadd]
    omega

end Space

/-- `requiredLength` in 32 bits is the message's space. -/
theorem fragmentedLength_eq (hm : 32 ≤ maxPayload) (hmax : maxPayload < 2147483616)
    (lo : 0 ≤ length) (hi : length ≤ 1073741000) :
    fragmentedLength length maxPayload = messageSpace maxPayload length := by
  have hbounds := messageSpace_bounds hm lo
  have hmod := Int.emod_nonneg length (show maxPayload ≠ 0 by omega)
  have hlt := Int.emod_lt_of_pos length (show 0 < maxPayload by omega)
  have hq := Int.ediv_nonneg lo (show 0 ≤ maxPayload by omega)
  have hfull : 0 ≤ length / maxPayload * (maxPayload + 32) := mul_nonneg hq (by omega)
  unfold messageSpace at hbounds ⊢
  simp only [fragmentedLength, headerLength, Int.tdiv_eq_ediv_of_nonneg lo, Int.tmod_eq_emod_of_nonneg lo]
  rw [i32_eq (x := maxPayload + 32) (by omega)]
  split at hbounds
  next hpos =>
    rw [if_pos hpos, if_pos hpos, alignedFrameLength_eq hmod (by omega),
      i32_eq (x := length / maxPayload * (maxPayload + 32)) (by omega)]
    exact i32_eq (by omega)
  next hpos =>
    rw [if_neg hpos, if_neg hpos, i32_eq (x := length / maxPayload * (maxPayload + 32)) (by omega)]
    exact i32_eq (by omega)

/-- Where the frame of a round ends. -/
def Fragment.stop (f : Fragment) : Int := f.offset + (f.bytesToWrite + 63) / 32 * 32

/-- **The rounds of the loop fill the message's space**: their frames form a chain over it. -/
theorem fragmentLoop_chain (hm : 32 ≤ maxPayload) (ha : maxPayload % 32 = 0)
    (hmax : maxPayload < 2147483616) :
    ∀ (fuel : Nat) (remaining offset : Int) (flags : UInt8), 0 ≤ remaining → remaining ≤ fuel →
      0 ≤ offset → offset + messageSpace maxPayload remaining ≤ 1073741824 →
      Chain Fragment.offset Fragment.stop offset
        (fragmentLoop length maxPayload fuel remaining offset flags)
        (offset + messageSpace maxPayload remaining) := by
  intro fuel
  induction fuel with
  | zero =>
    intro remaining offset flags lo hfuel _ _
    have hzero : remaining = 0 := by omega
    subst hzero
    simp [fragmentLoop, Chain, messageSpace]
  | succ fuel ih =>
    intro remaining offset flags lo hfuel hoff hend
    unfold fragmentLoop
    by_cases hpos : 0 < remaining
    · rw [if_pos hpos]
      have hstep := messageSpace_step hm ha hpos
      have hbounds := messageSpace_bounds hm lo
      have hb : 0 < min remaining maxPayload ∧ min remaining maxPayload ≤ remaining := by omega
      simp only
      generalize min remaining maxPayload = b at hstep hb ⊢
      have hrest := messageSpace_bounds hm (show 0 ≤ remaining - b by omega)
      rw [alignedFrameLength_eq (by omega) (by omega), i32_eq (x := remaining - b) (by omega),
        i32_eq (x := offset + (b + 63) / 32 * 32) (by omega)]
      refine ⟨rfl, show offset < offset + (b + 63) / 32 * 32 by omega, ?_⟩
      have hend' : offset + messageSpace maxPayload remaining =
          offset + (b + 63) / 32 * 32 + messageSpace maxPayload (remaining - b) := by omega
      rw [hend']
      exact ih (remaining - b) (offset + (b + 63) / 32 * 32) 0 (by omega) (by omega) (by omega) (by omega)
    · have hzero : remaining = 0 := by omega
      rw [if_neg hpos, hzero]
      simp [Chain, messageSpace]

/-- Every round takes some of the message, and no more than a payload. -/
theorem fragmentLoop_bytes (hm : 32 ≤ maxPayload) :
    ∀ (fuel : Nat) (remaining offset : Int) (flags : UInt8),
      ∀ f ∈ fragmentLoop length maxPayload fuel remaining offset flags,
        0 < f.bytesToWrite ∧ f.bytesToWrite ≤ maxPayload := by
  intro fuel
  induction fuel with
  | zero => intro remaining offset flags f hf; cases hf
  | succ fuel ih =>
    intro remaining offset flags f hf
    unfold fragmentLoop at hf
    split at hf
    next hpos =>
      rcases List.mem_cons.mp hf with rfl | hf
      · show 0 < min remaining maxPayload ∧ min remaining maxPayload ≤ maxPayload
        omega
      · exact ih _ _ _ f hf
    next => cases hf

theorem fragments_chain {offset : Int} (hm : 32 ≤ maxPayload) (ha : maxPayload % 32 = 0)
    (hmax : maxPayload < 2147483616) (lo : 0 ≤ length) (hoff : 0 ≤ offset)
    (hend : offset + messageSpace maxPayload length ≤ 1073741824) :
    Chain Fragment.offset Fragment.stop offset (fragments length maxPayload offset)
      (offset + messageSpace maxPayload length) :=
  fragmentLoop_chain hm ha hmax _ _ _ _ lo (by omega) hoff hend

/-- The end of a frame whose header carries a payload of this length. -/
theorem FrameHeader.stop_eq (f : FrameHeader) (lo : 0 ≤ f.frameLength) (hi : f.frameLength ≤ 2147483616) :
    f.stop = f.offset + (f.frameLength + 31) / 32 * 32 := by
  rw [FrameHeader.stop, frameAlignment, alignInt32_eq (by omega) hi]

/-- The padding frame takes the rest of the term. -/
theorem paddingFrames_chain (p : LogParams) {offset : Int} (termId : Int) (lo : 0 ≤ offset)
    (ha : offset % 32 = 0) :
    Chain FrameHeader.offset FrameHeader.stop (min offset p.termLength)
      (paddingFrames p.termLength offset termId) p.termLength := by
  have hle := p.termLength_le
  have haligned := p.termLength_aligned
  unfold paddingFrames
  split
  next hlt =>
    have hstop := FrameHeader.stop_eq ⟨offset, i32 (p.termLength - offset), unfragmented, typePad, termId⟩
    have hword : i32 (p.termLength - offset) = p.termLength - offset := i32_eq (by omega)
    simp only [hword] at hstop ⊢
    have hend := hstop (by omega) (by omega)
    have hfull : offset + (p.termLength - offset + 31) / 32 * 32 = p.termLength := by omega
    rw [hfull] at hend
    exact ⟨(min_eq_left hlt.le).symm, by rw [hend]; exact hlt, hend⟩
  next hge => exact min_eq_right (by omega)

end AeronGo.LogBuffer
