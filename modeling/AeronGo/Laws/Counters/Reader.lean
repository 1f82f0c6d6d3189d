import AeronGo.Counters.Reader
import AeronGo.Laws.Atomic.Buffer

/-!
# Laws of the counters reader

Every traversal of a counters file goes over its records up to the first unused one (`recordsFrom`). `Scan` goes over
all of them; the others go to `maxCounterID`, which is one less than their number, so the last record of a full file
is seen by `Scan` alone. A file that the driver changes during a traversal is left out.
-/

namespace AeronGo.Counters

open Machine Atomic

/-- The bytes of a counters file with `n` records. -/
structure CountersFile where
  n : Nat
  metaData : Memory
  values : Memory
  small : 512 * n < 2147483648

namespace CountersFile

variable (f : CountersFile)

def reader : Reader := newReader ⟨f.values, 128 * f.n⟩ ⟨f.metaData, 512 * f.n⟩

/-! ## Records -/

def status (k : Nat) : Int := getInt32 f.metaData (512 * k)

def typeId (k : Nat) : Int := getInt32 f.metaData (512 * k + 4)

def labelLength (k : Nat) : Int := getInt32 f.metaData (512 * k + 128)

def label (k : Nat) : List UInt8 := read f.metaData (512 * k + 132) (f.labelLength k).toNat

def value (k : Nat) : Int := getInt64 f.values (128 * k)

def key (k : Nat) : Buffer := ⟨fun i => f.metaData (512 * k + 16 + i), 112⟩

def counter (k : Nat) : Counter := ⟨k, f.typeId k, f.value k, f.label k⟩

/-- The allocated records among `m` from `k` on, up to the first unused one. -/
def recordsFrom (k m : Nat) : List Nat :=
  ((List.range' k m).takeWhile (f.status · ≠ recordUnused)).filter (f.status · = recordAllocated)

/-- The allocated records among the first `m`. -/
def records (m : Nat) : List Nat := f.recordsFrom 0 m

/-- The labels of the allocated records fit their field. -/
def Labelled : Prop := ∀ k < f.n, f.status k = recordAllocated → 0 ≤ f.labelLength k ∧ f.labelLength k ≤ 380

section Succ

variable {f} {k : Nat} (m : Nat)

theorem recordsFrom_unused (h : f.status k = recordUnused) : f.recordsFrom k (m + 1) = [] := by
  rw [recordsFrom, List.range'_succ, List.takeWhile_cons_of_neg (by simpa using h), List.filter_nil]

theorem recordsFrom_allocated (h : f.status k = recordAllocated) :
    f.recordsFrom k (m + 1) = k :: f.recordsFrom (k + 1) m := by
  have hused : f.status k ≠ recordUnused := by
    rw [h]
    decide
  rw [recordsFrom, List.range'_succ, List.takeWhile_cons_of_pos (by simpa using hused),
    List.filter_cons_of_pos (by simpa using h)]
  rfl

theorem recordsFrom_other (hused : f.status k ≠ recordUnused) (h : f.status k ≠ recordAllocated) :
    f.recordsFrom k (m + 1) = f.recordsFrom (k + 1) m := by
  rw [recordsFrom, List.range'_succ, List.takeWhile_cons_of_pos (by simpa using hused),
    List.filter_cons_of_neg (by simpa using h)]
  rfl

end Succ

/-- A record is among those that a traversal reaches if it is allocated and none before it is unused. -/
theorem mem_recordsFrom {i : Nat} (k m : Nat) : i ∈ f.recordsFrom k m ↔
    (k ≤ i ∧ i < k + m) ∧ f.status i = recordAllocated ∧ ∀ j, k ≤ j → j < i → f.status j ≠ recordUnused := by
  induction m generalizing k with
  | zero => exact ⟨nofun, fun h => by omega⟩
  | succ m ih =>
    by_cases hunused : f.status k = recordUnused
    · rw [recordsFrom_unused _ hunused]
      refine ⟨nofun, fun ⟨hrange, hstatus, hbefore⟩ => ?_⟩
      rcases Nat.eq_or_lt_of_le hrange.1 with rfl | hlt
      · exact absurd (hunused.symm.trans hstatus) (by decide)
      · exact absurd hunused (hbefore k (Nat.le_refl k) hlt)
    · -- of the records from `k` on only `k` itself is new
      have hnext : i ∈ f.recordsFrom (k + 1) m ↔ i ≠ k ∧ (k ≤ i ∧ i < k + (m + 1)) ∧ f.status i = recordAllocated ∧
          ∀ j, k ≤ j → j < i → f.status j ≠ recordUnused := by
        rw [ih]
        refine ⟨fun ⟨hrange, hstatus, hbefore⟩ => ⟨by omega, by omega, hstatus, fun j hj hlt => ?_⟩,
          fun ⟨hne, hrange, hstatus, hbefore⟩ => ⟨by omega, hstatus, fun j hj => hbefore j (by omega)⟩⟩
        rcases Nat.eq_or_lt_of_le hj with rfl | hj
        · exact hunused
        · exact hbefore j hj hlt
      by_cases halloc : f.status k = recordAllocated
      · rw [recordsFrom_allocated _ halloc, List.mem_cons, hnext]
        refine ⟨?_, fun h => or_iff_not_imp_left.mpr fun hne => ⟨hne, h⟩⟩
        rintro (rfl | h)
        · exact ⟨by omega, halloc, fun j hj hlt => absurd hlt (Nat.not_lt.mpr hj)⟩
        · exact h.2
      · rw [recordsFrom_other _ hunused halloc, hnext]
        refine ⟨And.right, fun h => ⟨?_, h⟩⟩
        rintro rfl
        exact halloc h.2.1

theorem mem_records {m k : Nat} (h : k ∈ f.records m) : k < m ∧ f.status k = recordAllocated := by
  obtain ⟨hrange, hstatus, _⟩ := (f.mem_recordsFrom 0 m).mp h
  exact ⟨by omega, hstatus⟩

/-- The file is in use to its end: its last record is allocated, and none before it is unused. -/
def LastInUse : Prop := 0 < f.n ∧ f.status (f.n - 1) = recordAllocated ∧ ∀ k < f.n - 1, f.status k ≠ recordUnused

/-- Then a traversal of all records reaches the last one. -/
theorem last_mem_records : f.n - 1 ∈ f.records f.n ↔ f.LastInUse := by
  rw [records, f.mem_recordsFrom]
  refine ⟨fun ⟨hrange, hstatus, hbefore⟩ => ⟨by omega, hstatus, fun k => hbefore k (Nat.zero_le k)⟩,
    fun ⟨hpos, hstatus, hbefore⟩ => ⟨by omega, hstatus, fun k _ => hbefore k⟩⟩

/-- One more record adds at most itself. -/
theorem recordsFrom_succ (k m : Nat) :
    f.recordsFrom k (m + 1) = f.recordsFrom k m ∨ f.recordsFrom k (m + 1) = f.recordsFrom k m ++ [k + m] := by
  induction m generalizing k with
  | zero =>
    by_cases hunused : f.status k = recordUnused
    · exact .inl (recordsFrom_unused 0 hunused)
    by_cases halloc : f.status k = recordAllocated
    · exact .inr (recordsFrom_allocated 0 halloc)
    · exact .inl (recordsFrom_other 0 hunused halloc)
  | succ m ih =>
    by_cases hunused : f.status k = recordUnused
    · rw [recordsFrom_unused _ hunused, recordsFrom_unused _ hunused]
      exact .inl rfl
    have hnext : k + (m + 1) = k + 1 + m := by omega
    by_cases halloc : f.status k = recordAllocated
    · rw [recordsFrom_allocated _ halloc, recordsFrom_allocated _ halloc, hnext]
      exact (ih (k + 1)).imp (congrArg (k :: ·)) (congrArg (k :: ·))
    · rw [recordsFrom_other _ hunused halloc, recordsFrom_other _ hunused halloc, hnext]
      exact ih (k + 1)

/-- Otherwise its records are those before the last one. -/
theorem records_pred (h : ¬ f.LastInUse) : f.records f.n = f.records (f.n - 1) := by
  rw [← last_mem_records] at h
  cases hn : f.n with
  | zero => rfl
  | succ m =>
    rw [hn] at h
    rcases f.recordsFrom_succ 0 m with hsame | hlast
    · exact hsame
    · refine absurd ?_ h
      rw [records, hlast, Nat.zero_add]
      exact List.mem_append_right _ (List.mem_singleton_self m)

/-! ## Reading a record -/

theorem metaData_getInt32 {a : Int} (lo : 0 ≤ a) (hi : a + 4 ≤ 512 * f.n) :
    f.reader.metaData.getInt32 a = .ok (getInt32 f.metaData a) := by
  have hsmall := f.small
  have hcheck : boundsCheck a 4 f.reader.metaData.length = .ok () :=
    boundsCheck_ok lo (by decide) hi (show 512 * (f.n : Int) < 2147483648 by omega)
  rw [Buffer.getInt32, hcheck]
  rfl

theorem values_getInt64 {k : Nat} (hk : k < f.n) : f.reader.values.getInt64 (counterOffset k) = .ok (f.value k) := by
  have hsmall := f.small
  have hplace : counterOffset k = 128 * k := by
    rw [counterOffset, counterLength, Int.mul_comm]
    exact i32_eq (by omega)
  have hcheck : boundsCheck (128 * k) 8 f.reader.values.length = .ok () :=
    boundsCheck_ok (by omega) (by decide) (show 128 * (k : Int) + 8 ≤ 128 * f.n by omega)
      (show 128 * (f.n : Int) < 2147483648 by omega)
  rw [hplace, Buffer.getInt64, hcheck]
  rfl

/-- The place of a field of a record. -/
theorem place_eq {k : Nat} (hk : k < f.n) {d : Int} (lo : 0 ≤ d) (hi : d < 512) : i32 (512 * k + d) = 512 * k + d := by
  have hsmall := f.small
  exact i32_eq (by omega)

theorem metaDataOffset_eq {k : Nat} (hk : k < f.n) : metaDataOffset k = 512 * k := by
  have hplace := f.place_eq hk (d := 0) (by decide) (by decide)
  rw [Int.add_zero] at hplace
  rw [metaDataOffset, Int.mul_comm]
  exact hplace

theorem getInt32_status {k : Nat} (hk : k < f.n) : f.reader.metaData.getInt32 (512 * k) = .ok (f.status k) :=
  f.metaData_getInt32 (by omega) (by omega)

theorem getInt32_typeId {k : Nat} (hk : k < f.n) :
    f.reader.metaData.getInt32 (i32 (512 * k + typeIdOffset)) = .ok (f.typeId k) := by
  rw [typeIdOffset, f.place_eq hk (by decide) (by decide)]
  exact f.metaData_getInt32 (by omega) (by omega)

theorem labelValueUnsafe_eq {k : Nat} (hk : k < f.n) (hlabel : 0 ≤ f.labelLength k ∧ f.labelLength k ≤ 380) :
    f.reader.labelValueUnsafe (512 * k) = .ok (f.label k) := by
  have hsmall := f.small
  have hsize : f.reader.metaData.getInt32 (i32 (512 * k + labelOffset)) = .ok (f.labelLength k) := by
    rw [labelOffset, f.place_eq hk (by decide) (by decide)]
    exact f.metaData_getInt32 (by omega) (by omega)
  have hplace : i32 (512 * (k : Int) + labelOffset + 4) = 512 * k + 132 := by
    rw [labelOffset, Int.add_assoc]
    exact f.place_eq hk (by decide) (by decide)
  have hfits : ¬(f.labelLength k < 0 ∨ fullLabelLength < f.labelLength k) := by
    rw [fullLabelLength]
    omega
  have hcount : ((f.labelLength k).toNat : Int) = f.labelLength k := Int.toNat_of_nonneg hlabel.1
  have hcheck : boundsCheck (512 * k + 132) (i32 (f.labelLength k).toNat) f.reader.metaData.length = .ok () := by
    rw [hcount, i32_eq (by omega)]
    exact boundsCheck_ok (by omega) (by omega) (show 512 * (k : Int) + 132 + f.labelLength k ≤ 512 * f.n by omega)
      (show 512 * (f.n : Int) < 2147483648 by omega)
  rw [Reader.labelValueUnsafe, hsize, ok_bind, if_neg hfits, hplace, Buffer.getBytes, hcheck]
  rfl

/-! ## Traversals -/

section Scan

variable {f} {σ : Type} (cb : σ → Counter → σ) (bytesToString : List UInt8 → Except Stop (List UInt8))

/-- What a scan does at an allocated record. -/
def visit (f : CountersFile) (st : σ) (k : Nat) : Except Stop σ := do
  return cb st { f.counter k with label := ← bytesToString (f.label k) }

/-- The loop of `scan`, by induction on the records that are left. -/
theorem scanLoop_eq (hlabels : f.Labelled) : ∀ (m k fuel : Nat) (st : σ), k + m = f.n → m < fuel →
    f.reader.scanLoop cb bytesToString fuel (512 * k) k st = (f.recordsFrom k m).foldlM (f.visit cb bytesToString) st := by
  have hsmall := f.small
  intro m
  induction m with
  | zero =>
    intro k fuel st hk hfuel
    obtain ⟨fuel, rfl⟩ := Nat.exists_eq_add_one_of_ne_zero (Nat.ne_zero_of_lt hfuel)
    have hend : ¬512 * (k : Int) < f.reader.metaData.length := by
      show ¬512 * (k : Int) < 512 * f.n
      omega
    rw [Reader.scanLoop, if_neg hend]
    rfl
  | succ m ih =>
    intro k fuel st hk hfuel
    obtain ⟨fuel, rfl⟩ := Nat.exists_eq_add_one_of_ne_zero (Nat.ne_zero_of_lt hfuel)
    have hlt : k < f.n := by omega
    have hin : 512 * (k : Int) < f.reader.metaData.length := by
      show 512 * (k : Int) < 512 * f.n
      omega
    have hplace : i32 (512 * (k : Int) + metadataLength) = 512 * ((k + 1 : Nat) : Int) := by
      rw [show metadataLength = 512 from rfl, i32_eq (by omega)]
      omega
    have hid : i32 ((k : Int) + 1) = ((k + 1 : Nat) : Int) := by
      rw [i32_eq (by omega)]
      rfl
    rw [Reader.scanLoop, if_pos hin, f.getInt32_status hlt, ok_bind, hplace, hid]
    have hrest := fun st => ih (k + 1) fuel st (by omega) (by omega)
    by_cases hunused : f.status k = recordUnused
    · rw [if_pos hunused, recordsFrom_unused _ hunused]
      rfl
    rw [if_neg hunused]
    by_cases halloc : f.status k = recordAllocated
    · rw [if_pos halloc, f.getInt32_typeId hlt, ok_bind, f.labelValueUnsafe_eq hlt (hlabels k hlt halloc), ok_bind,
        f.values_getInt64 hlt, ok_bind, recordsFrom_allocated _ halloc, List.foldlM_cons, visit]
      cases bytesToString (f.label k) with
      | error stop => rfl
      | ok label => exact hrest _
    · rw [if_neg halloc, recordsFrom_other _ hunused halloc, hrest]

theorem scanWith_eq (hlabels : f.Labelled) (st : σ) :
    f.reader.scanWith cb bytesToString st = (f.records f.n).foldlM (f.visit cb bytesToString) st := by
  have hfuel : f.n < f.reader.metaData.length.toNat + 1 := by
    show f.n < (512 * (f.n : Int)).toNat + 1
    omega
  exact scanLoop_eq cb bytesToString hlabels f.n 0 _ st (Nat.zero_add f.n) hfuel

/-- The counters that a scan reports. -/
def counters (f : CountersFile) : List Counter := (f.records f.n).map f.counter

/-- **`Scan`** calls back with the counters of the records, in order. -/
theorem scan_eq (hlabels : f.Labelled) (st : σ) : f.reader.scan cb st = .ok (f.counters.foldl cb st) := by
  rw [Reader.scan, scanWith_eq cb _ hlabels, counters, List.foldl_map]
  exact List.foldlM_pure

end Scan

section Types

variable {f} {σ : Type}

/-- The id and the offsets of a record in the other loops. -/
theorem getInt32_metaDataOffset {k : Nat} (hk : k < f.n) :
    f.reader.metaData.getInt32 (metaDataOffset k) = .ok (f.status k) ∧
      f.reader.metaData.getInt32 (i32 (metaDataOffset k + 4)) = .ok (f.typeId k) ∧
      f.reader.keyBuffer (metaDataOffset k) = f.key k := by
  rw [f.metaDataOffset_eq hk]
  exact ⟨f.getInt32_status hk, f.getInt32_typeId hk, rfl⟩

/-- The loop of `ScanForType` with a callback that always continues. -/
theorem scanForTypeLoop_eq (t : Int) (callback : σ → Int → Buffer → Bool × σ)
    (hcontinue : ∀ st id key, (callback st id key).1 = true) : ∀ (m k : Nat) (st : σ), k + m ≤ f.n →
    f.reader.scanForTypeLoop t callback m k st =
      .ok (((f.recordsFrom k m).filter (f.typeId · = t)).foldl (fun st (k : Nat) => (callback st k (f.key k)).2) st) := by
  intro m
  induction m with
  | zero =>
    intro k st _
    rfl
  | succ m ih =>
    intro k st hk
    obtain ⟨hstatus, htype, hkey⟩ := f.getInt32_metaDataOffset (show k < f.n by omega)
    have hrest := fun st => ih (k + 1) st (by omega)
    push_cast at hrest
    rw [Reader.scanForTypeLoop, hstatus, ok_bind]
    by_cases hunused : f.status k = recordUnused
    · rw [if_pos hunused, recordsFrom_unused _ hunused]
      rfl
    rw [if_neg hunused]
    by_cases halloc : f.status k = recordAllocated
    · rw [if_pos halloc, htype, ok_bind, recordsFrom_allocated _ halloc]
      by_cases ht : f.typeId k = t
      · rw [if_pos ht, hkey, List.filter_cons_of_pos (by simpa using ht), List.foldl_cons]
        obtain ⟨st', hst'⟩ : ∃ st', callback st k (f.key k) = (true, st') := ⟨_, Prod.ext (hcontinue _ _ _) rfl⟩
        rw [hst']
        exact hrest st'
      · rw [if_neg ht, List.filter_cons_of_neg (by simpa using ht)]
        exact hrest st
    · rw [if_neg halloc, recordsFrom_other _ hunused halloc]
      exact hrest st

/-- The loop of `FindCounter`. -/
theorem findCounterLoop_eq (t : Int) (keyFilter : Option (Buffer → Bool)) : ∀ (m k : Nat), k + m ≤ f.n →
    f.reader.findCounterLoop t keyFilter m k =
      .ok (((f.recordsFrom k m).filter (f.typeId · = t)).find? (fun k => keyFilter.all (· (f.key k))) |>.elim
        nullCounterId (fun k => (k : Int))) := by
  intro m
  induction m with
  | zero =>
    intro k _
    rfl
  | succ m ih =>
    intro k hk
    obtain ⟨hstatus, htype, hkey⟩ := f.getInt32_metaDataOffset (show k < f.n by omega)
    have hrest := ih (k + 1) (by omega)
    push_cast at hrest
    rw [Reader.findCounterLoop, hstatus, ok_bind]
    by_cases hunused : f.status k = recordUnused
    · rw [if_pos hunused, recordsFrom_unused _ hunused]
      rfl
    rw [if_neg hunused]
    by_cases halloc : f.status k = recordAllocated
    · rw [if_pos halloc, htype, ok_bind, recordsFrom_allocated _ halloc]
      by_cases ht : f.typeId k = t
      · rw [if_pos ht, hkey, List.filter_cons_of_pos (by simpa using ht)]
        by_cases hfound : keyFilter.all (· (f.key k)) = true
        · rw [if_pos hfound, List.find?_cons, hfound]
          rfl
        · rw [if_neg hfound, List.find?_cons, Bool.eq_false_iff.mpr hfound]
          exact hrest
      · rw [if_neg ht, List.filter_cons_of_neg (by simpa using ht)]
        exact hrest
    · rw [if_neg halloc, recordsFrom_other _ hunused halloc]
      exact hrest

theorem maxCounterID_eq (f : CountersFile) : f.reader.maxCounterID = f.n - 1 := by
  show (128 * (f.n : Int)).tdiv 128 - 1 = f.n - 1
  rw [Int.tdiv_eq_ediv_of_nonneg (by omega)]
  omega

theorem maxCounterID_toNat (f : CountersFile) : f.reader.maxCounterID.toNat = f.n - 1 := by
  rw [f.maxCounterID_eq]
  omega

/-- The loops to `maxCounterID` go over the records before the last one. -/
theorem scanForType_eq (t : Int) (callback : σ → Int → Buffer → Bool × σ)
    (hcontinue : ∀ st id key, (callback st id key).1 = true) (st : σ) :
    f.reader.scanForType t callback st =
      .ok (((f.records (f.n - 1)).filter (f.typeId · = t)).foldl (fun st (k : Nat) => (callback st k (f.key k)).2) st) := by
  rw [Reader.scanForType, f.maxCounterID_toNat]
  exact scanForTypeLoop_eq t callback hcontinue (f.n - 1) 0 st (by omega)

theorem findCounter_eq (t : Int) (keyFilter : Option (Buffer → Bool)) :
    f.reader.findCounter t keyFilter =
      .ok (((f.records (f.n - 1)).filter (f.typeId · = t)).find? (fun k => keyFilter.all (· (f.key k))) |>.elim
        nullCounterId (fun k => (k : Int))) := by
  rw [Reader.findCounter, f.maxCounterID_toNat]
  exact findCounterLoop_eq t keyFilter (f.n - 1) 0 (by omega)

/-! ## One counter -/

theorem outside_iff (f : CountersFile) (id : Int) : f.reader.outside id = true ↔ id < 0 ∨ (f.n : Int) - 1 ≤ id := by
  have hsmall := f.small
  rw [Reader.outside, decide_eq_true_iff, f.maxCounterID_eq, i32_eq (by omega)]

/-- A counter before the last one. -/
theorem getCounter_eq {k : Nat} (hk : (k : Int) < f.n - 1) :
    f.reader.isCounterAllocated k = .ok (f.status k = recordAllocated : Bool) ∧
      f.reader.getCounterValue k = .ok (f.value k) ∧ f.reader.getCounterTypeId k = .ok (f.typeId k) := by
  have hin : ¬f.reader.outside k = true := by
    rw [f.outside_iff]
    omega
  have hlt : k < f.n := by omega
  rw [Reader.isCounterAllocated, Reader.getCounterValue, Reader.getCounterTypeId, if_neg hin, if_neg hin, if_neg hin,
    f.metaDataOffset_eq hlt, f.getInt32_status hlt, f.values_getInt64 hlt, f.getInt32_typeId hlt]
  exact ⟨rfl, rfl, rfl⟩

/-- The last counter is never one. -/
theorem isCounterAllocated_last (f : CountersFile) : f.reader.isCounterAllocated (f.n - 1) = .ok false :=
  if_pos ((f.outside_iff _).mpr (.inr (Int.le_refl _)))

end Types

/-! ## All lookups -/

section Lookups

variable {f}

/-- The counters of a type, as records. -/
theorem filter_counter (t : Int) (ks : List Nat) :
    (ks.map f.counter).filter (·.typeId = t) = (ks.filter (f.typeId · = t)).map f.counter := by
  rw [List.filter_map]
  apply congrArg (List.map f.counter)
  apply List.filter_congr
  intro k _
  rw [Function.comp_apply, counter]

theorem foldl_snoc_map {α β : Type} (g : α → β) (xs : List α) (acc : List β) :
    xs.foldl (fun acc x => acc ++ [g x]) acc = acc ++ xs.map g := by
  induction xs generalizing acc with
  | nil => exact (List.append_nil acc).symm
  | cons x xs ih => rw [List.foldl_cons, ih, List.append_assoc, List.map_cons, List.singleton_append]

/-- The first counter that passes, by its record. -/
theorem find_counter (q : Counter → Bool) (ks : List Nat) :
    ((ks.map f.counter).find? q).elim nullCounterId Counter.id =
      (ks.find? (fun k => q (f.counter k))).elim nullCounterId (fun k => (k : Int)) := by
  rw [List.find?_map, Option.elim_map]
  rfl

end Lookups

/-- The other lookups see the counters that a scan reported: by type, by type and key, and each one alone. -/
structure Agree (counters : List Counter) : Prop where
  ofType : ∀ t, f.reader.scanForType t (fun ids id _ => (true, ids ++ [id])) [] =
    .ok ((counters.filter (·.typeId = t)).map Counter.id)
  found : ∀ t keyFilter, f.reader.findCounter t keyFilter =
    .ok (((counters.filter (·.typeId = t)).find? (fun c => keyFilter.all (· (f.key c.id.toNat)))).elim
      nullCounterId Counter.id)
  single : ∀ c ∈ counters, f.reader.isCounterAllocated c.id = .ok true ∧ f.reader.getCounterValue c.id = .ok c.value ∧
    f.reader.getCounterTypeId c.id = .ok c.typeId

/-- **All lookups see the counters that `Scan` reports**, if and only if the file is not in use to its end. -/
theorem lookups_agree_iff (hlabels : f.Labelled) :
    ∃ counters, f.reader.scan (fun cs c => cs ++ [c]) [] = .ok counters ∧ (f.Agree counters ↔ ¬ f.LastInUse) := by
  have hscan : f.reader.scan (fun cs c => cs ++ [c]) [] = .ok f.counters := by
    rw [scan_eq _ hlabels, foldl_snoc_map (fun c : Counter => c), List.map_id', List.nil_append]
  refine ⟨f.counters, hscan, ?_, fun hlast => ?_⟩
  · intro hagree hlast
    have halloc := (hagree.single _ (List.mem_map_of_mem (f.last_mem_records.mpr hlast))).1
    have hid : (f.counter (f.n - 1)).id = (f.n : Int) - 1 := Int.ofNat_sub hlast.1
    rw [hid, f.isCounterAllocated_last] at halloc
    cases halloc
  · have hsame := f.records_pred hlast
    refine ⟨fun t => ?_, fun t keyFilter => ?_, fun c hc => ?_⟩
    · rw [scanForType_eq t _ (fun _ _ _ => rfl), foldl_snoc_map (fun k : Nat => (k : Int)), List.nil_append, counters,
        hsame, filter_counter, List.map_map]
      rfl
    · rw [findCounter_eq, counters, hsame, filter_counter, find_counter]
      rfl
    · obtain ⟨k, hk, rfl⟩ := List.mem_map.mp hc
      rw [hsame] at hk
      obtain ⟨hlt, hstatus⟩ := f.mem_records hk
      obtain ⟨halloc, hvalue, htype⟩ := f.getCounter_eq (k := k) (by omega)
      rw [hstatus] at halloc
      exact ⟨halloc, hvalue, htype⟩

instance : Decidable f.Labelled := inferInstanceAs (Decidable (∀ k < f.n, _ → _))

instance : Decidable f.LastInUse := inferInstanceAs (Decidable (0 < f.n ∧ _ ∧ ∀ k < f.n - 1, _))

/-- A file with one allocated record, of type 5 and with a label of one byte. -/
def oneOf (n : Nat) (small : 512 * n < 2147483648) : CountersFile :=
  ⟨n, write (put 4 (put 4 (put 4 (fun _ => 0) 0 1) 4 5) 128 1) 132 [65], put 8 (fun _ => 0) 0 77, small⟩

/-- With an unused record behind it, a counter is seen by all lookups. -/
theorem lookups_agree_iff_two : (oneOf 2 (by decide)).Labelled ∧
    ∃ counters, (oneOf 2 (by decide)).reader.scan (fun cs c => cs ++ [c]) [] = .ok counters ∧ counters ≠ [] ∧
      (oneOf 2 (by decide)).Agree counters := by
  have hlabels : (oneOf 2 (by decide)).Labelled := by decide +kernel
  obtain ⟨counters, hscan, hagree⟩ := lookups_agree_iff _ hlabels
  refine ⟨hlabels, counters, hscan, ?_, hagree.mpr (by decide +kernel)⟩
  rintro rfl
  exact absurd hscan (by decide +kernel)

/-- In a file of one record, which is allocated, only `Scan` sees it. -/
theorem full_file_unseen :
    (oneOf 1 (by decide)).reader.scan (fun cs c => cs ++ [c]) [] = .ok [⟨0, 5, 77, [65]⟩] ∧
      (oneOf 1 (by decide)).reader.scanForType 5 (fun ids id _ => (true, ids ++ [id])) [] = .ok [] ∧
      (oneOf 1 (by decide)).reader.findCounter 5 none = .ok (-1) ∧
      (oneOf 1 (by decide)).reader.isCounterAllocated 0 = .ok false ∧
      (oneOf 1 (by decide)).reader.getCounterValue 0 = .ok 0 ∧
      (oneOf 1 (by decide)).reader.getCounterTypeId 0 = .ok (-1) := by
  decide +kernel

/-! ## The two scans -/

/-- `ScanUnsafe` goes over records as `Scan` does, up to an empty label. -/
theorem foldlM_unsafe {σ : Type} (cb : σ → Counter → σ) (ks : List Nat) (st : σ) :
    ks.foldlM (f.visit cb fun labelBytes => if labelBytes = [] then .error .panic else .ok labelBytes) st =
      if ∀ k ∈ ks, f.label k ≠ [] then .ok ((ks.map f.counter).foldl cb st) else .error .panic := by
  induction ks generalizing st with
  | nil => rfl
  | cons k ks ih =>
    rw [List.foldlM_cons, visit]
    by_cases hempty : f.label k = []
    · rw [if_pos hempty, if_neg fun hall => hall k List.mem_cons_self hempty]
      rfl
    · rw [if_neg hempty]
      refine (ih (cb st (f.counter k))).trans ?_
      simp only [List.forall_mem_cons, hempty, ne_eq, not_false_eq_true, true_and, List.map_cons, List.foldl_cons]

theorem scanUnsafe_eq {σ : Type} (hlabels : f.Labelled) (cb : σ → Counter → σ) (st : σ) :
    f.reader.scanUnsafe cb st =
      if ∀ k ∈ f.records f.n, f.label k ≠ [] then .ok (f.counters.foldl cb st) else .error .panic := by
  rw [Reader.scanUnsafe, scanWith_eq cb _ hlabels, foldlM_unsafe, counters]

theorem counter_label (k : Nat) : (f.counter k).label = f.label k := by rw [counter]

/-- **`Scan` and `ScanUnsafe` call back alike**, with the counters of the records and their labels, if and only if no
label is empty. -/
theorem scans_agree_iff (hlabels : f.Labelled) :
    (∀ (σ : Type) (cb : σ → Counter → σ) (st : σ), f.reader.scan cb st = .ok (f.counters.foldl cb st) ∧
        f.reader.scanUnsafe cb st = .ok (f.counters.foldl cb st)) ↔
      ∀ c ∈ f.counters, c.label ≠ [] := by
  constructor
  · intro hscans c hc hempty
    obtain ⟨k, hk, rfl⟩ := List.mem_map.mp hc
    rw [counter_label] at hempty
    have hunsafe := (hscans Unit (fun _ _ => ()) ()).2
    rw [scanUnsafe_eq f hlabels, if_neg fun hall => hall k hk hempty] at hunsafe
    cases hunsafe
  · intro hlabel σ cb st
    have hall : ∀ k ∈ f.records f.n, f.label k ≠ [] := by
      intro k hk
      rw [← counter_label]
      exact hlabel (f.counter k) (List.mem_map_of_mem hk)
    exact ⟨scan_eq cb hlabels st, by rw [scanUnsafe_eq f hlabels, if_pos hall]⟩

theorem scans_agree_iff_one : (oneOf 1 (by decide)).Labelled ∧
    ((∀ (σ : Type) (cb : σ → Counter → σ) (st : σ),
        (oneOf 1 (by decide)).reader.scan cb st = .ok ((oneOf 1 (by decide)).counters.foldl cb st) ∧
        (oneOf 1 (by decide)).reader.scanUnsafe cb st = .ok ((oneOf 1 (by decide)).counters.foldl cb st)) ↔
      ∀ c ∈ (oneOf 1 (by decide)).counters, c.label ≠ []) :=
  ⟨by decide +kernel, scans_agree_iff (oneOf 1 (by decide)) (by decide +kernel)⟩

/-- A file with one allocated record, without a label. -/
def unlabelled : CountersFile := ⟨1, put 4 (fun _ => 0) 0 1, fun _ => 0, by decide⟩

theorem scanUnsafe_panics : unlabelled.Labelled ∧
    unlabelled.reader.scan (fun cs c => cs ++ [c]) [] = .ok [⟨0, 0, 0, []⟩] ∧
      unlabelled.reader.scanUnsafe (fun cs c => cs ++ [c]) [] = .error .panic := by
  decide +kernel

end CountersFile

end AeronGo.Counters
