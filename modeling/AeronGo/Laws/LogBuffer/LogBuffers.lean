import AeronGo.LogBuffer.LogBuffers
import AeronGo.Laws.Atomic.Buffer
import AeronGo.Laws.Util.Bits
import Mathlib.Tactic.Linarith

/-!
# Laws of log files

The length of a term is a third of the file less the metadata, rounded down and on 32-bit words, and is checked on its
own. So a file that is a byte or two too long passes, and the largest log, of three terms of a gigabyte, does not: its
length is negative as a 32-bit word. The branch for large files does not return at all, as it reads the list of files
where it has put nothing. What the operating system makes of a mapping is left open.
-/

namespace AeronGo.LogBuffer

open Machine Atomic Util MemMap

/-! ## The length of a term -/

variable {k : Nat} {termLength : Int} {w' : World}

theorem checkTermLength_ok :
    checkTermLength termLength = .ok () ↔ ∃ k : Nat, 16 ≤ k ∧ k ≤ 30 ∧ termLength = 2 ^ k := by
  rw [checkTermLength, termMinLength, termMaxLength]
  constructor
  · intro h
    split at h
    · cases h
    split at h
    · cases h
    split at h
    next hmin hmax hpow =>
      obtain ⟨k, rfl⟩ := (isPowerOfTwo_iff (by omega)).mp hpow
      have hlo : (2 : Int) ^ 16 ≤ 2 ^ k := by
        norm_num
        omega
      have hhi : (2 : Int) ^ k ≤ 2 ^ 30 := by
        norm_num
        omega
      exact ⟨k, (pow_le_pow_iff_right₀ (by norm_num)).mp hlo, (pow_le_pow_iff_right₀ (by norm_num)).mp hhi, rfl⟩
    · cases h
  · rintro ⟨k, hlo, hhi, rfl⟩
    have hmin : (2 : Int) ^ 16 ≤ 2 ^ k := pow_le_pow_right₀ (by norm_num) hlo
    have hmax : (2 : Int) ^ k ≤ 2 ^ 30 := pow_le_pow_right₀ (by norm_num) hhi
    norm_num at hmin hmax
    rw [if_neg (by omega), if_neg (by omega), if_pos ((isPowerOfTwo_iff (by omega)).mpr ⟨k, rfl⟩)]

/-- A third, rounded down. -/
theorem computeTermLength_eq_iff {logLength : Int} (lo : 0 ≤ logLength) (hi : logLength < 2147483648)
    (hpos : 0 < termLength) :
    computeTermLength (i32 logLength) = termLength ↔
      3 * termLength + 4096 ≤ logLength ∧ logLength ≤ 3 * termLength + 4098 := by
  have hword : i32 logLength = logLength := i32_eq ⟨by omega, hi⟩
  have hdiff : i32 (logLength - logMetaDataLength) = logLength - 4096 := i32_eq (by unfold logMetaDataLength; omega)
  rw [computeTermLength, hword, hdiff]
  by_cases hlong : 4096 ≤ logLength
  · rw [Int.tdiv_eq_ediv_of_nonneg (by omega)]
    omega
  · have hneg : (logLength - 4096).tdiv 3 ≤ 0 := by
      rw [← Int.neg_neg (logLength - 4096), Int.neg_tdiv, Int.tdiv_eq_ediv_of_nonneg (by omega)]
      omega
    omega

/-! ## Mappings -/

/-- The bytes of the file under a buffer, if its mapping is live and holds it. -/
def regionOf (w : World) (b : Window) : Option Region :=
  match w.mapped.lookup b.mmap with
  | none => none
  | some r => if 0 ≤ b.offset ∧ b.offset + b.length ≤ r.length then some ⟨r.start + b.offset, b.length⟩ else none

variable {grants : Region → Bool}

theorem wrapMeta_ok : wrapMeta logMetaDataLength metaFields 0 = .ok 448 := by decide

variable {w : World}

/-- The whole file is mapped. -/
theorem mapExisting_whole (hpos : 0 < w.fileSize) (hgrants : grants ⟨0, w.fileSize⟩ = true) :
    mapExisting grants w 0 0 = some (⟨w.next, w.fileSize⟩,
      { w with
        mapped := w.mapped ++ [(w.next, ⟨0, w.fileSize⟩)]
        memories := w.memories ++ [w.next]
        next := w.next + 1
        below := w.below_next _ }) := by
  rw [mapExisting, if_neg (Int.ne_of_gt hpos), if_pos rfl, doMap, if_pos hgrants]

/-- What `Wrap` returns for a file that is mapped as a whole. -/
def wholeLog (w : World) (termLength : Int) : LogBuffers :=
  ⟨[some ⟨w.next, w.fileSize⟩],
    [⟨w.next, 0 * termLength, termLength⟩, ⟨w.next, 1 * termLength, termLength⟩, ⟨w.next, 2 * termLength, termLength⟩,
      ⟨w.next, w.fileSize - logMetaDataLength, logMetaDataLength⟩]⟩

theorem wrap_whole (hsmall : w.fileSize < maxSingleMappingSize) (hpos : 0 < w.fileSize)
    (hgrants : grants ⟨0, w.fileSize⟩ = true) (hterm : computeTermLength (i32 w.fileSize) = termLength)
    (hcheck : checkTermLength termLength = .ok ()) :
    wrap grants w = .ok (wholeLog w termLength,
      { w with
        mapped := w.mapped ++ [(w.next, ⟨0, w.fileSize⟩)]
        memories := w.memories ++ [w.next]
        next := w.next + 1
        below := w.below_next _ }) := by
  rw [wrap, hterm, hcheck, ok_bind, if_pos hsmall, mapExisting_whole hpos hgrants]
  rw [orPanic, ok_bind, wrapMeta_ok]
  rfl

/-- A large file is never wrapped. -/
theorem wrap_large (hlarge : ¬ w.fileSize < maxSingleMappingSize) (lb : LogBuffers) (w' : World) :
    wrap grants w ≠ .ok (lb, w') := by
  intro h
  rw [wrap] at h
  obtain ⟨_, _, h⟩ := ok_of_bind h
  rw [if_neg hlarge] at h
  obtain ⟨⟨mmap, w₁⟩, _, h⟩ := ok_of_bind h
  obtain ⟨_, hterms, _⟩ := ok_of_bind h
  -- the first term is behind four nil pointers and the metadata, and the second nil pointer is read
  rw [mapTerms] at hterms
  obtain ⟨⟨mmap', w₂⟩, _, hterms⟩ := ok_of_bind hterms
  obtain ⟨_, hptr, _⟩ := ok_of_bind hterms
  cases hptr

/-! ## The layout -/

/-- A log of three terms, as long as the file says. -/
def IsLog (fileSize : Int) : Prop := ∃ k : Nat, 16 ≤ k ∧ k ≤ 30 ∧ fileSize = 3 * 2 ^ k + logMetaDataLength

/-- The terms and the metadata are the file. -/
structure Tiles (w' : World) (lb : LogBuffers) (fileSize termLength : Int) : Prop where
  partition : ∀ i : Nat, i < 3 → ∃ b, lb.buffers[i]? = some b ∧ regionOf w' b = some ⟨i * termLength, termLength⟩
  metadata : ∃ b, lb.buffers[3]? = some b ∧ regionOf w' b = some ⟨3 * termLength, fileSize - 3 * termLength⟩

/-- Closing the log leaves the mappings that were there before. -/
def Releases (w w' : World) (lb : LogBuffers) : Prop :=
  ∃ lb' w'', lb.close w' = .ok (lb', w'') ∧ lb'.mmapFiles = [] ∧ w''.mapped = w.mapped

/-- **The layout of a file**: it is wrapped if and only if it is a log, into the parts that the log has, and closing it
releases what was mapped. -/
structure LaidOut (grants : Region → Bool) (w : World) : Prop where
  accepts : (∃ lb w', wrap grants w = .ok (lb, w')) ↔ IsLog w.fileSize
  tiles : ∀ lb w' termLength, wrap grants w = .ok (lb, w') → w.fileSize = 3 * termLength + logMetaDataLength →
    Tiles w' lb w.fileSize termLength
  closes : ∀ lb w', wrap grants w = .ok (lb, w') → Releases w w' lb

theorem lookup_next (w : World) (r : Region) : (w.mapped ++ [(w.next, r)]).lookup w.next = some r := by
  have hnone : w.mapped.lookup w.next = none := by
    rw [List.lookup_eq_none_iff]
    intro e he
    exact bne_iff_ne.mpr (Nat.ne_of_gt (w.below e he))
  rw [List.lookup_append, hnone]
  simp

theorem filter_next (w : World) (r : Region) : (w.mapped ++ [(w.next, r)]).filter (·.1 ≠ w.next) = w.mapped := by
  rw [List.filter_append, List.filter_eq_self.mpr]
  · simp
  · intro e he
    have hlt := w.below e he
    simp only [ne_eq, decide_eq_true_eq]
    omega

section Whole

variable {w : World} (hsmall : w.fileSize < maxSingleMappingSize) (lo : 0 ≤ w.fileSize)

include hsmall lo

/-- A file that is wrapped has a third that is a term. -/
theorem computed_of_wrap {lb : LogBuffers} (h : wrap grants w = .ok (lb, w')) :
    ∃ k : Nat, 16 ≤ k ∧ k ≤ 30 ∧ computeTermLength (i32 w.fileSize) = 2 ^ k ∧
      3 * 2 ^ k + 4096 ≤ w.fileSize ∧ w.fileSize ≤ 3 * 2 ^ k + 4098 := by
  rw [maxSingleMappingSize] at hsmall
  rw [wrap] at h
  obtain ⟨_, hcheck, _⟩ := ok_of_bind h
  obtain ⟨k, hlo, hhi, hk⟩ := checkTermLength_ok.mp hcheck
  exact ⟨k, hlo, hhi, hk, (computeTermLength_eq_iff lo (by omega) (by positivity)).mp hk⟩

variable (hgrants : 0 < w.fileSize → grants ⟨0, w.fileSize⟩ = true)

include hgrants

theorem wrap_of_computed (hlo : 16 ≤ k) (hhi : k ≤ 30) (hle : 3 * 2 ^ k + 4096 ≤ w.fileSize)
    (hge : w.fileSize ≤ 3 * 2 ^ k + 4098) : ∃ lb w', wrap grants w = .ok (lb, w') := by
  have hterm : (0 : Int) < 2 ^ k := by positivity
  have hword : w.fileSize < 2147483648 := by
    rw [maxSingleMappingSize] at hsmall
    omega
  exact ⟨_, _, wrap_whole hsmall (by omega) (hgrants (by omega))
    ((computeTermLength_eq_iff lo hword hterm).mpr ⟨hle, hge⟩) (checkTermLength_ok.mpr ⟨k, hlo, hhi, rfl⟩)⟩

/-- What is wrapped is the whole file, with the length that is computed. -/
theorem wrap_small_ok {lb : LogBuffers} (h : wrap grants w = .ok (lb, w')) :
    lb = wholeLog w (computeTermLength (i32 w.fileSize)) ∧ w'.mapped = w.mapped ++ [(w.next, ⟨0, w.fileSize⟩)] ∧
      w.next ∈ w'.memories := by
  obtain ⟨k, hlo, hhi, hk, hle, _⟩ := computed_of_wrap hsmall lo h
  have hterm : (0 : Int) < 2 ^ k := by positivity
  rw [wrap_whole hsmall (by omega) (hgrants (by omega)) hk (checkTermLength_ok.mpr ⟨k, hlo, hhi, rfl⟩)] at h
  cases h
  exact ⟨by rw [hk], rfl, List.mem_append_right _ (List.mem_singleton_self _)⟩

end Whole

theorem wholeLog_tiles (hpos : 0 < termLength)
    (hmapped : w'.mapped = w.mapped ++ [(w.next, ⟨0, w.fileSize⟩)])
    (hsize : w.fileSize = 3 * termLength + logMetaDataLength) :
    Tiles w' (wholeLog w termLength) w.fileSize termLength := by
  rw [logMetaDataLength] at hsize
  have hregion : ∀ {offset length}, 0 ≤ offset → offset + length ≤ w.fileSize →
      regionOf w' ⟨w.next, offset, length⟩ = some ⟨offset, length⟩ := by
    intro offset length lo hi
    simp only [regionOf, hmapped, lookup_next]
    rw [if_pos ⟨lo, hi⟩, Int.zero_add]
  constructor
  · intro i hi
    have hwindow : (wholeLog w termLength).buffers[i]? = some ⟨w.next, i * termLength, termLength⟩ := by
      match i, hi with
      | 0, _ => rfl
      | 1, _ => rfl
      | 2, _ => rfl
    refine ⟨_, hwindow, hregion ?_ ?_⟩
    · exact Int.mul_nonneg (Int.natCast_nonneg i) (Int.le_of_lt hpos)
    · have hle : (i : Int) * termLength ≤ 2 * termLength := Int.mul_le_mul_of_nonneg_right (by omega) (Int.le_of_lt hpos)
      omega
  · refine ⟨_, rfl, ?_⟩
    rw [logMetaDataLength, hregion (by omega) (by omega)]
    congr 2 <;> omega

theorem wholeLog_releases
    (hmapped : w'.mapped = w.mapped ++ [(w.next, ⟨0, w.fileSize⟩)]) (hmemory : w.next ∈ w'.memories) :
    Releases w w' (wholeLog w termLength) := by
  let w'' : World := { w' with
    mapped := w'.mapped.filter (·.1 ≠ w.next)
    below := fun e he => w'.below e (List.mem_filter.mp he).1 }
  have hclose : File.close ⟨w.next, w.fileSize⟩ w' = .ok w'' := by rw [File.close, if_pos hmemory]
  refine ⟨{ wholeLog w termLength with mmapFiles := [] }, w'', ?_, rfl, (congrArg _ hmapped).trans (filter_next w _)⟩
  rw [LogBuffers.close, wholeLog, closeFiles, hclose]
  rfl

/-- Below the limit a log has terms of at most half a gigabyte. -/
theorem small_exponent {fileSize : Int} (hsmall : fileSize < maxSingleMappingSize)
    (hle : 3 * 2 ^ k + 4096 ≤ fileSize) : k ≤ 29 := by
  by_contra hlarge
  have hpow : (2 : Int) ^ 30 ≤ 2 ^ k := pow_le_pow_right₀ (by norm_num) (by omega)
  rw [maxSingleMappingSize] at hsmall
  norm_num at hpow
  omega

theorem small_of_exponent (hk : k ≤ 29) : 3 * (2 : Int) ^ k + 4098 < maxSingleMappingSize := by
  have hpow : (2 : Int) ^ k ≤ 2 ^ 29 := pow_le_pow_right₀ (by norm_num) hk
  rw [maxSingleMappingSize]
  norm_num at hpow
  omega

/-- The log of three gigabytes is not wrapped. -/
theorem not_laidOut_largest (hsize : w.fileSize = 3 * 2 ^ 30 + 4096) : ¬ LaidOut grants w := by
  intro h
  obtain ⟨lb, w', hwrap⟩ := h.accepts.mpr ⟨30, by decide, by decide, hsize⟩
  refine wrap_large ?_ lb w' hwrap
  rw [hsize, maxSingleMappingSize]
  norm_num

/-- One or two bytes more than a log, and the file is wrapped. -/
theorem not_laidOut_longer (hgrants : 0 < w.fileSize → grants ⟨0, w.fileSize⟩ = true) (hlo : 16 ≤ k)
    (hhi : k ≤ 29) (hle : 3 * 2 ^ k + 4097 ≤ w.fileSize) (hge : w.fileSize ≤ 3 * 2 ^ k + 4098) : ¬ LaidOut grants w := by
  intro h
  have hsmall := Int.lt_of_le_of_lt hge (small_of_exponent hhi)
  have hterm : (0 : Int) < 2 ^ k := by positivity
  obtain ⟨j, _, _, hj⟩ := h.accepts.mp (wrap_of_computed hsmall (by omega) hgrants hlo (by omega) (by omega) hge)
  rw [logMetaDataLength] at hj
  omega

/-- **Which files are laid out**: all but those that are a byte or two longer than a log below the limit, and the log of
three gigabytes. -/
theorem laidOut_iff {w : World} (lo : 0 ≤ w.fileSize) (hgrants : 0 < w.fileSize → grants ⟨0, w.fileSize⟩ = true) :
    LaidOut grants w ↔ w.fileSize ≠ 3 * 2 ^ 30 + 4096 ∧
      ∀ k : Nat, 16 ≤ k → k ≤ 29 → w.fileSize ≠ 3 * 2 ^ k + 4097 ∧ w.fileSize ≠ 3 * 2 ^ k + 4098 := by
  constructor
  · intro h
    refine ⟨fun hsize => not_laidOut_largest hsize h, fun k hlo hhi => ?_⟩
    constructor <;> intro hsize <;> exact not_laidOut_longer hgrants hlo hhi (by omega) (by omega) h
  · rintro ⟨hlargest, hlonger⟩
    by_cases hsmall : w.fileSize < maxSingleMappingSize
    · constructor
      · constructor
        · rintro ⟨lb, w', h⟩
          obtain ⟨k, hlo, _, _, hle, hge⟩ := computed_of_wrap hsmall lo h
          have hhi := small_exponent hsmall hle
          have hexact := hlonger k hlo hhi
          refine ⟨k, hlo, by omega, ?_⟩
          rw [logMetaDataLength]
          omega
        · rintro ⟨k, hlo, hhi, hsize⟩
          rw [logMetaDataLength] at hsize
          exact wrap_of_computed hsmall lo hgrants hlo hhi (by omega) (by omega)
      · intro lb w' termLength h hsize
        obtain ⟨rfl, hmapped, _⟩ := wrap_small_ok hsmall lo hgrants h
        obtain ⟨k, _, _, hk, hle, hge⟩ := computed_of_wrap hsmall lo h
        have hterm : (0 : Int) < 2 ^ k := by positivity
        have hlength : 2 ^ k = termLength := by
          rw [logMetaDataLength] at hsize
          omega
        rw [hk, hlength]
        exact wholeLog_tiles (by omega) hmapped hsize
      · intro lb w' h
        obtain ⟨rfl, hmapped, hmemory⟩ := wrap_small_ok hsmall lo hgrants h
        exact wholeLog_releases hmapped hmemory
    · refine ⟨⟨fun ⟨lb, w', h⟩ => absurd h (wrap_large hsmall lb w'), ?_⟩, ?_, ?_⟩
      · rintro ⟨k, _, hhi, hsize⟩
        rw [logMetaDataLength] at hsize
        by_cases hk : k = 30
        · exact absurd (hk ▸ hsize) hlargest
        · have hlt := small_of_exponent (show k ≤ 29 by omega)
          omega
      · exact fun lb w' _ h => absurd h (wrap_large hsmall lb w')
      · exact fun lb w' h => absurd h (wrap_large hsmall lb w')

/-- A file that nothing has been mapped of. -/
def unmapped (fileSize : Int) : World := ⟨fileSize, [], [], 0, fun _ h => absurd h List.not_mem_nil⟩

theorem laidOut_iff_smallest : LaidOut (fun _ => true) (unmapped 200704) := by
  refine (laidOut_iff (by decide) (fun _ => rfl)).mpr ⟨by decide, ?_⟩
  intro k hlo hhi
  show (200704 : Int) ≠ _ ∧ (200704 : Int) ≠ _
  omega

/-- A log with terms of a gigabyte is refused, and a log with one more byte than it has is not. -/
theorem not_laidOut :
    ¬ LaidOut (fun _ => true) (unmapped (3 * 2 ^ 30 + 4096)) ∧ ¬ LaidOut (fun _ => true) (unmapped (3 * 2 ^ 16 + 4097)) := by
  refine ⟨not_laidOut_largest rfl, not_laidOut_longer (k := 16) (fun _ => rfl) (by decide) (by decide) ?_ ?_⟩
  · exact Int.le_refl _
  · show (3 * 2 ^ 16 + 4097 : Int) ≤ 3 * 2 ^ 16 + 4098
    norm_num

end AeronGo.LogBuffer
