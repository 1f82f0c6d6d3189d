import AeronGo.Laws.Publication.Rotation
import AeronGo.Publication.Sampling

/-!
# Positions that a publication reports

`Position` adds the tail offset to the begin of the tail's term without cutting it off at the term's end. So
what it reports is past the term whenever the tail is, that is from a trip until the rotation, and goes back
to the begin of the next term then. If every call finds a tail that is not past its term, the tail is that
of the newest term, and the positions only grow.
-/

namespace AeronGo.Publication

open Machine LogBuffer Util

variable {p : LogParams}

/-- The tail that the caller is about to read is not past the end of its term. -/
def ReadsInTerm (p : LogParams) (s : State) : Sampler → Prop
  | .readTail termCount => tailOffset (s.tails (indexByTermCount termCount)) ≤ p.termLength
  | _ => True

instance (s : State) : (sampler : Sampler) → Decidable (ReadsInTerm p s sampler)
  | .readTail _ => inferInstanceAs (Decidable (_ ≤ _))
  | .idle | .readCount | .panicked => .isTrue trivial

/-- The log stays in its terms, and the caller reads tails in their terms. -/
def Orderly (p : LogParams) (s : Sampled) : SampledAction → Prop
  | .publish a => StaysInTerms p s.log a
  | .call => True
  | .read => ReadsInTerm p s.log s.sampler

instance (s : Sampled) : (a : SampledAction) → Decidable (Orderly p s a)
  | .publish _ => inferInstanceAs (Decidable (StaysInTerms _ _ _))
  | .call => .isTrue trivial
  | .read => inferInstanceAs (Decidable (ReadsInTerm _ _ _))

/-- What was reported is not ahead of the log. -/
def Behind (p : LogParams) (s : State) (m : Int) (x : Sample) : Prop :=
  ∃ k, x.value = k * p.termLength + tailOffset x.rawTail ∧ TailIn p k x.rawTail ∧ 0 ≤ k ∧ k ≤ m ∧
    tailOffset x.rawTail ≤ p.termLength ∧ (k = m → tailOffset x.rawTail ≤ tailOffset (s.tails (m % 3)))

variable {m n : Int} {s : State}

theorem Behind.mono {t : State} {m' : Int} {x : Sample} (h : Behind p s m x) (hgo : GoesOn s m t m') :
    Behind p t m' x := by
  obtain ⟨k, hvalue, htail, lo, hle, hin, hlast⟩ := h
  refine ⟨k, hvalue, htail, lo, Int.le_trans hle hgo.le, hin, ?_⟩
  rintro rfl
  rcases hgo with hlt | ⟨rfl, hgrown⟩
  · exact absurd hle (Int.not_le.mpr hlt)
  · exact Int.le_trans (hlast rfl) hgrown

/-- What is read from the newest term is not less than what was reported before. -/
theorem Behind.le {x : Sample} (h : Behind p s m x) :
    x.value ≤ m * p.termLength + tailOffset (s.tails (m % 3)) := by
  obtain ⟨k, hvalue, _, _, hle, hin, hlast⟩ := h
  by_cases heq : k = m
  · rw [hvalue, heq]
    exact Int.add_le_add_left (hlast heq) _
  · have hpos : 0 ≤ p.termLength := Int.le_trans (by decide) p.termLength_ge
    have hnext : (k + 1) * p.termLength ≤ m * p.termLength :=
      Int.mul_le_mul_of_nonneg_right (by omega) hpos
    have hoff := tailOffset_nonneg (s.tails (m % 3))
    rw [Int.add_mul, Int.one_mul] at hnext
    omega

/-- A position is in the term that it was computed from exactly if the tail is. -/
theorem within_iff {raw : Int} (lo : 0 ≤ n) (hi : n ≤ lastTerm) (h : TailIn p n raw) :
    tailPosition p raw ≤ termEnd p raw ↔ tailOffset raw ≤ p.termLength := by
  rw [tailPosition_eq lo hi h, termEnd, termBegin_eq lo hi h]
  exact Int.add_le_add_iff_left _

/-! ## The runs -/

/-- The term count that the caller holds has been reached. -/
def SamplerIn (m : Int) : Sampler → Prop
  | .readTail n => 0 ≤ n ∧ n ≤ m
  | .panicked => False
  | _ => True

theorem SamplerIn.mono {m' : Int} {sampler : Sampler} (h : SamplerIn m sampler) (hle : m ≤ m') : SamplerIn m' sampler := by
  cases sampler with
  | readTail n => exact ⟨h.1, Int.le_trans h.2 hle⟩
  | _ => exact h

structure SamplesSound (p : LogParams) (s : Sampled) (m : Int) : Prop where
  log : Turning p s.log m
  sampler : SamplerIn m s.sampler
  samples : ∀ x ∈ s.samples, Behind p s.log m x ∧ x.value ≤ termEnd p x.rawTail
  increasing : (s.samples.map Sample.value).Pairwise (· ≤ ·)

theorem samplesSound_initial (p : LogParams) : SamplesSound p (Sampled.initial p) 0 :=
  ⟨turning_initial p, trivial, nofun, .nil⟩

/-- The partition that the caller reads. -/
theorem Turning.read (h : Turning p s m) (lo : 0 ≤ n) (hi : n ≤ m) :
    ∃ k, 0 ≤ k ∧ k ≤ lastTerm ∧ s.terms (n % 3) = k ∧ indexByTermCount n = n % 3 ∧ TailIn p k (s.tails (n % 3)) := by
  have hentered := (h.entered hi).1
  have hnear := (h.near (n % 3) (by omega) (by omega)).2
  exact ⟨_, Int.le_trans lo hentered, Int.le_trans hnear h.le_last, rfl, indexByTermCount_of_nonneg lo,
    (h.log.partition (n % 3) (by omega) (by omega)).tailIn⟩

/-- The caller reads a tail in its term: it is that of the newest one. -/
theorem Turning.sample (h : Turning p s m) (lo : 0 ≤ n) (hi : n ≤ m)
    (hroom : tailOffset (s.tails (n % 3)) ≤ p.termLength) :
    s.tails (n % 3) = s.tails (m % 3) ∧ tailPosition p (s.tails (m % 3)) = m * p.termLength + tailOffset (s.tails (m % 3)) ∧
      Behind p s m ⟨s.tails (m % 3), tailPosition p (s.tails (m % 3))⟩ := by
  obtain ⟨k, hk, hlast, hterm, _, htail⟩ := h.read lo hi
  have hnewest := h.eq_newest (i := n % 3) (by omega) (by omega) (hterm ▸ hk) hroom
  have hres := (h.entered hi).2
  have hsame : n % 3 = m % 3 := by omega
  obtain rfl : k = m := hterm.symm.trans hnewest
  rw [hsame] at htail hroom
  have hvalue := tailPosition_eq hk hlast htail
  exact ⟨by rw [hsame], hvalue, k, hvalue, htail, hk, Int.le_refl k, hroom, fun _ => Int.le_refl _⟩

theorem SamplesSound.step {s t : Sampled} {a : SampledAction} (h : SamplesSound p s m) (horderly : Orderly p s a)
    (ht : Sampled.step p s a = some t) : ∃ m', SamplesSound p t m' := by
  cases a with
  | publish a =>
    obtain ⟨log, hlog, rfl⟩ := Option.map_eq_some_iff.mp ht
    obtain ⟨m', hgo, hturning⟩ := h.log.step horderly hlog
    exact ⟨m', hturning, h.sampler.mono hgo.le,
      fun x hx => ⟨(h.samples x hx).1.mono hgo, (h.samples x hx).2⟩, h.increasing⟩
  | call =>
    simp only [Sampled.step] at ht
    split at ht
    next hidle =>
      cases ht
      refine ⟨m, ?_⟩
      split
      · exact h
      · exact ⟨h.log, trivial, h.samples, h.increasing⟩
    next => cases ht
  | read =>
    have hsampler := h.sampler
    simp only [Sampled.step] at ht
    cases hs : s.sampler with
    | idle | panicked => rw [hs] at ht; cases ht
    | readCount =>
      rw [hs] at ht
      cases ht
      exact ⟨m, h.log, h.log.count, h.samples, h.increasing⟩
    | readTail n =>
      rw [hs] at ht hsampler
      obtain ⟨lo, hi⟩ := hsampler
      have hindex := indexByTermCount_of_nonneg lo
      have hroom : tailOffset (s.log.tails (n % 3)) ≤ p.termLength := by
        have := horderly
        rwa [Orderly, hs, ReadsInTerm, hindex] at this
      obtain ⟨hsame, hvalue, hbehind⟩ := h.log.sample lo hi hroom
      simp only [hindex, if_neg (show ¬ n % 3 < 0 by omega), hsame, Option.some.injEq] at ht
      subst ht
      refine ⟨m, h.log, trivial, ?_, ?_⟩
      · intro x hx
        rcases List.mem_append.mp hx with hx | hx
        · exact h.samples x hx
        · obtain ⟨k, hk, hlast, _, _, htail⟩ := h.log.read lo hi
          rw [List.mem_singleton.mp hx]
          rw [hsame] at htail hroom
          exact ⟨hbehind, (within_iff hk hlast htail).mpr hroom⟩
      · rw [List.map_append]
        refine List.pairwise_append.mpr ⟨h.increasing, List.pairwise_singleton _ _, ?_⟩
        intro v hv w hw
        obtain ⟨x, hx, rfl⟩ := List.mem_map.mp hv
        rw [List.mem_singleton.mp hw]
        exact Int.le_trans (h.samples x hx).1.le (Int.le_of_eq hvalue.symm)

/-- **In every run in which each call of `Position` reads a tail that is not past its term**, the positions that the
calls return never decrease and lie in the terms that they were computed from, and no call panics. The next call
returns a position past its term exactly if it breaks the condition. -/
theorem position_monotone {s : Sampled} (h : ((Sampled.system p).guard (Orderly p)).Reachable s) :
    (s.samples.map Sample.value).Pairwise (· ≤ ·) ∧ (∀ x ∈ s.samples, x.value ≤ termEnd p x.rawTail) ∧
      s.sampler ≠ .panicked ∧ ∀ t, Sampled.step p s .read = some t →
        ((∀ x ∈ t.samples, x.value ≤ termEnd p x.rawTail) ↔ ReadsInTerm p s.log s.sampler) := by
  obtain ⟨m, hsound⟩ : ∃ m, SamplesSound p s m := by
    refine h.invariant (I := fun s => ∃ m, SamplesSound p s m) ?_ ?_
    · intro s hs
      exact ⟨0, hs ▸ samplesSound_initial p⟩
    · rintro s a t ⟨m, hs⟩ hstep
      exact hs.step hstep.1 hstep.2
  refine ⟨hsound.increasing, fun x hx => (hsound.samples x hx).2, ?_, ?_⟩
  · intro hpanicked
    have hsampler := hsound.sampler
    rwa [hpanicked] at hsampler
  · intro t ht
    have hold : ∀ x ∈ s.samples, x.value ≤ termEnd p x.rawTail := fun x hx => (hsound.samples x hx).2
    have hsampler := hsound.sampler
    simp only [Sampled.step] at ht
    cases hs : s.sampler with
    | idle | panicked => rw [hs] at ht; cases ht
    | readCount =>
      rw [hs] at ht
      cases ht
      exact iff_of_true hold trivial
    | readTail n =>
      rw [hs] at ht hsampler
      obtain ⟨k, hk, hlast, _, hindex, htail⟩ := hsound.log.read hsampler.1 hsampler.2
      simp only [hindex, if_neg (show ¬ n % 3 < 0 by omega), Option.some.injEq] at ht
      subst ht
      rw [ReadsInTerm, hindex, ← within_iff hk hlast htail]
      constructor
      · intro hall
        exact hall ⟨s.log.tails (n % 3), _⟩ (List.mem_append_right _ List.mem_cons_self)
      · intro hin x hx
        rcases List.mem_append.mp hx with hx | hx
        · exact hold x hx
        · rw [List.mem_singleton.mp hx]
          exact hin

/-- A call of `Position`. -/
def sampling : List SampledAction := [.call, .read, .read]

def publishing (as : List Action) : List SampledAction := as.map .publish

/-- Publisher 0 fills the first term. -/
def filling : List Action := [.driver 1000000 true false] ++ (List.replicate 8 (calling 0 (.offer 8160) 7)).flatten

theorem position_monotone_two : ∃ s, ((Sampled.system smallLog).guard (Orderly smallLog)).Reachable s ∧
    s.samples.map Sample.value = [65536, 65536] ∧ (s.samples.map Sample.value).Pairwise (· ≤ ·) ∧
      ∀ x ∈ s.samples, x.value ≤ termEnd smallLog x.rawTail := by
  obtain ⟨s, hreach, hend⟩ := System.exists_reachable_guard (· = Sampled.initial smallLog) (Sampled.step smallLog)
    (Orderly smallLog) rfl (publishing filling ++ sampling ++ publishing (calling 0 (.offer 0) 9) ++ sampling)
    (fun s => s.samples.map Sample.value = [65536, 65536]) (by decide +kernel)
  have hmonotone := position_monotone hreach
  exact ⟨s, hreach, of_decide_eq_true hend, hmonotone.1, hmonotone.2.1⟩

/-- The position is read once after the tail has run past the first term, and once after the rotation. -/
theorem position_goes_back : ∃ s, (Sampled.system smallLog).Reachable s ∧
    s.samples.map Sample.value = [65568, 65536] ∧ ∃ x ∈ s.samples, termEnd smallLog x.rawTail < x.value := by
  obtain ⟨s, hreach, hend⟩ := System.exists_reachable (· = Sampled.initial smallLog) (Sampled.step smallLog) rfl
    (publishing (filling ++ calling 0 (.offer 0) 5) ++ sampling ++ publishing (List.replicate 4 (.step 0)) ++ sampling)
    (fun s => s.samples.map Sample.value = [65568, 65536] ∧ ∃ x ∈ s.samples, termEnd smallLog x.rawTail < x.value)
    (by decide +kernel)
  exact ⟨s, hreach, of_decide_eq_true hend⟩

end AeronGo.Publication
