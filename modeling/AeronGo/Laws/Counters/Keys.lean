import AeronGo.Laws.Counters.Reader

/-!
# Parts of counter keys

The accessors check the end of the part as if it were an offset, so a part that starts before the key
passes if it ends in it, and one that ends with the key does not (`getKeyPart_cases`). The string's
length is checked without the prefix, and against a sum that can wrap.
-/

namespace AeronGo.Counters

open Machine Atomic

/-- The place of an offset into a record's key. -/
def keyPlace (id offset : Int) : Int := 512 * id + 16 + offset

namespace CountersFile

variable (f : CountersFile)

/-- The id denotes an allocated record. -/
def Allocated (id : Int) : Prop := 0 ≤ id ∧ id < f.n ∧ f.status id.toNat = recordAllocated

instance (id : Int) : Decidable (f.Allocated id) := inferInstanceAs (Decidable (_ ∧ _ ∧ _))

/-- The length of the string at an offset. -/
def stringLength (id offset : Int) : Int := getInt32 f.metaData (keyPlace id offset)

/-! ## The checks -/

section Checks

variable {f} {id offset size : Int}

/-- The parts that the checks let pass. -/
def Passes (f : CountersFile) (size id offset : Int) : Prop :=
  f.Allocated id ∧ id ≠ f.n - 1 ∧ -size ≤ offset ∧ offset < 112 - size

theorem validate_eq_none_iff (hsize : 0 ≤ size ∧ size ≤ 8) (hoffset : I32 offset) :
    f.reader.validateCounterIdAndOffset id (i32 (offset + size)) = none ↔
      (0 ≤ id ∧ id < f.n - 1) ∧ -size ≤ offset ∧ offset < 112 - size := by
  obtain ⟨hlo, hhi⟩ := hoffset
  have hend : (i32 (offset + size) < 0 ∨ maxKeyLength ≤ i32 (offset + size)) ↔
      ¬(-size ≤ offset ∧ offset < 112 - size) := by
    rw [maxKeyLength, i32]
    omega
  have hid : f.reader.outside id = true ↔ ¬(0 ≤ id ∧ id < f.n - 1) := by
    rw [f.outside_iff]
    omega
  rw [Reader.validateCounterIdAndOffset]
  by_cases hout : f.reader.outside id = true
  · rw [if_pos hout]
    exact ⟨fun h => absurd h (Option.some_ne_none _), fun h => absurd h.1 (hid.mp hout)⟩
  · rw [if_neg hout]
    have hin := not_not.mp fun h => hout (hid.mpr h)
    by_cases hpast : i32 (offset + size) < 0 ∨ maxKeyLength ≤ i32 (offset + size)
    · rw [if_pos hpast]
      exact ⟨fun h => absurd h (Option.some_ne_none _), fun h => absurd h.2 (hend.mp hpast)⟩
    · rw [if_neg hpast]
      exact ⟨fun _ => ⟨hin, not_not.mp fun h => hpast (hend.mpr h)⟩, fun _ => rfl⟩

/-- **What an accessor does**: it reads the part, or it returns an error. -/
theorem getKeyPart_cases {α : Type} (hsize : 0 ≤ size ∧ size ≤ 8) (hoffset : I32 offset)
    (get : Int → Except Stop (Except String α)) :
    f.Passes size id offset ∧ f.reader.getKeyPart size id offset get = get (keyPlace id offset) ∨
      ¬f.Passes size id offset ∧ ∃ err, f.reader.getKeyPart size id offset get = .ok (.error err) := by
  have hsmall := f.small
  rw [Reader.getKeyPart]
  cases hvalid : f.reader.validateCounterIdAndOffset id (i32 (offset + size)) with
  | some err =>
    refine .inr ⟨?_, err, rfl⟩
    rintro ⟨⟨hlo, hhi, _⟩, hlast, hpart⟩
    have hnone := (validate_eq_none_iff (f := f) hsize hoffset).mpr ⟨⟨hlo, by omega⟩, hpart⟩
    rw [hnone] at hvalid
    cases hvalid
  | none =>
    obtain ⟨⟨hlo, hhi⟩, hpart⟩ := (validate_eq_none_iff hsize hoffset).mp hvalid
    obtain ⟨k, rfl⟩ := Int.eq_ofNat_of_zero_le hlo
    have hk : k < f.n := by omega
    have hstatus := (f.getInt32_metaDataOffset hk).1
    dsimp only
    rw [hstatus, ok_bind, f.metaDataOffset_eq hk]
    by_cases halloc : f.status k = recordAllocated
    · refine .inl ⟨⟨⟨hlo, by omega, halloc⟩, by omega, hpart⟩, ?_⟩
      have hplace : i32 (512 * (k : Int) + keyOffset + offset) = keyPlace k offset := by
        rw [keyOffset, keyPlace]
        exact i32_eq (by omega)
      rw [if_neg (not_not.mpr halloc), hplace]
    · refine .inr ⟨fun hpasses => halloc hpasses.1.2.2, ?_⟩
      rw [if_pos halloc]
      exact ⟨_, rfl⟩

theorem getKeyPart_of_passes {α : Type} (hsize : 0 ≤ size ∧ size ≤ 8) (hoffset : I32 offset)
    (h : f.Passes size id offset) (get : Int → Except Stop (Except String α)) :
    f.reader.getKeyPart size id offset get = get (keyPlace id offset) :=
  ((getKeyPart_cases hsize hoffset get).resolve_right fun hnot => hnot.1 h).2

theorem getKeyPart_of_refused {α : Type} (hsize : 0 ≤ size ∧ size ≤ 8) (hoffset : I32 offset)
    (h : ¬f.Passes size id offset) (get : Int → Except Stop (Except String α)) :
    ∃ err, f.reader.getKeyPart size id offset get = .ok (.error err) :=
  ((getKeyPart_cases hsize hoffset get).resolve_left fun hpasses => h hpasses.1).2

end Checks

/-! ## The accessors -/

/-- A call returns the value if the condition holds, and an error otherwise. -/
def Exactly {α : Type} (result : Except Stop (Except String α)) (c : Prop) (v : α) : Prop :=
  (c → result = .ok (.ok v)) ∧ (¬c → ∃ err, result = .ok (.error err))

/-- A call that returns a value on its own condition is exact if that is the condition. -/
theorem exactly_iff {α : Type} {result : Except Stop (Except String α)} {accepts c : Prop} {v : α}
    (h : accepts ∧ (∃ x, result = .ok (.ok x) ∧ (c → x = v)) ∨ ¬accepts ∧ ∃ err, result = .ok (.error err)) :
    Exactly result c v ↔ (accepts ↔ c) := by
  rcases h with ⟨haccepts, x, rfl, hx⟩ | ⟨hrefuses, err, rfl⟩
  · constructor
    · rintro ⟨_, herror⟩
      refine ⟨fun _ => ?_, fun _ => haccepts⟩
      by_contra hc
      obtain ⟨_, hcontra⟩ := herror hc
      cases hcontra
    · intro hiff
      have hc := hiff.mp haccepts
      exact ⟨fun _ => by rw [hx hc], fun hnot => absurd hc hnot⟩
  · constructor
    · rintro ⟨hvalue, _⟩
      refine ⟨fun haccepts => absurd haccepts hrefuses, fun hc => ?_⟩
      cases hvalue hc
    · intro hiff
      exact ⟨fun hc => absurd (hiff.mpr hc) hrefuses, fun _ => ⟨err, rfl⟩⟩

/-- The part lies in the key of an allocated record. -/
def InKey (size id offset : Int) : Prop := f.Allocated id ∧ 0 ≤ offset ∧ offset + size ≤ 112

/-- The prefix and the bytes of the string at an offset lie in the key of an allocated record. -/
def StringInKey (id offset : Int) : Prop :=
  f.InKey 4 id offset ∧ 0 ≤ f.stringLength id offset ∧ f.InKey (4 + f.stringLength id offset) id offset

/-- `GetKeyPartInt32` reads exactly the key. -/
def Int32Exact (id offset : Int) : Prop :=
  Exactly (f.reader.getKeyPartInt32 id offset) (f.InKey 4 id offset) (getInt32 f.metaData (keyPlace id offset))

/-- `GetKeyPartInt64` does. -/
def Int64Exact (id offset : Int) : Prop :=
  Exactly (f.reader.getKeyPartInt64 id offset) (f.InKey 8 id offset) (getInt64 f.metaData (keyPlace id offset))

/-- `GetKeyPartString` does. -/
def StringExact (id offset : Int) : Prop :=
  Exactly (f.reader.getKeyPartString id offset) (f.StringInKey id offset)
    (read f.metaData (keyPlace id offset + 4) (f.stringLength id offset).toNat)

/-- A part on which the checks and the key agree: it is far off, or before the key of the last record, or in the key of
another one and not at its end. -/
def PartSound (size id offset : Int) : Prop :=
  f.Allocated id → offset < -size ∨ 112 - size < offset ∨ (id = f.n - 1 ∧ offset < 0) ∨
    (id ≠ f.n - 1 ∧ 0 ≤ offset ∧ offset < 112 - size)

/-- A string on which they agree: in the last record one that does not lie in the key, in another one a string that ends
four bytes before the end of the key or ends behind it. -/
def StringSound (id offset : Int) : Prop :=
  f.Allocated id → offset < -4 ∨ 108 < offset ∨ (offset = 108 ∧ f.stringLength id offset ≠ 0) ∨
    (offset < 108 ∧ f.stringLength id offset < 0) ∨
    (id = f.n - 1 ∧ offset < 108 ∧ (offset < 0 ∨ 108 < offset + f.stringLength id offset)) ∨
    (id ≠ f.n - 1 ∧ 0 ≤ offset ∧ offset < 108 ∧ offset + f.stringLength id offset ≤ 108) ∨
    (id ≠ f.n - 1 ∧ offset < 108 ∧ 112 < offset + f.stringLength id offset ∧
      offset + f.stringLength id offset < 2147483648)

section Accessors

variable {f} {id offset : Int} (hoffset : I32 offset)

theorem metaData_getInt64 {a : Int} (lo : 0 ≤ a) (hi : a + 8 ≤ 512 * f.n) :
    f.reader.metaData.getInt64 a = .ok (getInt64 f.metaData a) := by
  have hsmall := f.small
  have hcheck : boundsCheck a 8 f.reader.metaData.length = .ok () :=
    boundsCheck_ok lo (by decide) hi (show 512 * (f.n : Int) < 2147483648 by omega)
  rw [Buffer.getInt64, hcheck]
  rfl

include hoffset

/-- An accessor of a part of fixed size. -/
theorem getKeyPart_exactly {α : Type} {size : Int} (hsize : 0 ≤ size ∧ size ≤ 8)
    {get : Int → Except Stop (Except String α)} {v : α}
    (hget : f.Passes size id offset → get (keyPlace id offset) = .ok (.ok v)) :
    Exactly (f.reader.getKeyPart size id offset get) (f.InKey size id offset) v ↔
      (f.Passes size id offset ↔ f.InKey size id offset) := by
  apply exactly_iff
  refine (getKeyPart_cases hsize hoffset get).imp_left ?_
  rintro ⟨hpasses, hcall⟩
  exact ⟨hpasses, v, hcall.trans (hget hpasses), fun _ => rfl⟩

theorem int32Exact_iff :
    f.Int32Exact id offset ↔ (f.Passes 4 id offset ↔ f.InKey 4 id offset) := by
  apply getKeyPart_exactly hoffset (by decide)
  rintro ⟨⟨hlo, hhi, _⟩, _, hfrom, hto⟩
  rw [f.metaData_getInt32 (by rw [keyPlace]; omega) (by rw [keyPlace]; omega)]
  rfl

theorem int64Exact_iff :
    f.Int64Exact id offset ↔ (f.Passes 8 id offset ↔ f.InKey 8 id offset) := by
  apply getKeyPart_exactly hoffset (by decide)
  rintro ⟨⟨hlo, hhi, _⟩, _, hfrom, hto⟩
  rw [f.metaData_getInt64 (by rw [keyPlace]; omega) (by rw [keyPlace]; omega)]
  rfl

/-- The strings that the checks let pass. -/
def StringPasses (f : CountersFile) (id offset : Int) : Prop :=
  f.Passes 4 id offset ∧ 0 ≤ f.stringLength id offset ∧ i32 (offset + f.stringLength id offset) ≤ 112

omit hoffset in
/-- What the string's accessor reads, wherever that lies. -/
theorem getBytesArray_string (hpasses : f.StringPasses id offset) :
    f.reader.metaData.getBytesArray (i32 (keyPlace id offset + 4)) (f.stringLength id offset) =
      .ok (read f.metaData (keyPlace id offset + 4) (f.stringLength id offset).toNat) := by
  obtain ⟨⟨⟨hlo, hhi, _⟩, _, hfrom, hto⟩, hlength, hend⟩ := hpasses
  have hsmall := f.small
  have hrange : f.stringLength id offset < 2147483648 := (getInt32_range _ _).2
  have hplace : i32 (keyPlace id offset + 4) = keyPlace id offset + 4 := by
    rw [keyPlace]
    exact i32_eq (by omega)
  have hcheck : boundsCheck (keyPlace id offset + 4) (f.stringLength id offset) f.reader.metaData.length = .ok () := by
    refine if_neg ?_
    show ¬512 * (f.n : Int) < i32 (keyPlace id offset + 4 + f.stringLength id offset)
    -- either the string ends in the record, or its end wraps below zero
    rw [keyPlace]
    unfold i32 at hend ⊢
    omega
  rw [hplace, Buffer.getBytesArray, hcheck, ok_bind, if_neg (Int.not_lt.mpr hlength)]
  rfl

theorem stringExact_iff :
    f.StringExact id offset ↔ (f.StringPasses id offset ↔ f.StringInKey id offset) := by
  apply exactly_iff
  rw [Reader.getKeyPartString]
  by_cases hpasses : f.Passes 4 id offset
  · have ⟨⟨hlo, hhi, _⟩, _, hfrom, hto⟩ := hpasses
    have hlength : f.reader.metaData.getInt32 (keyPlace id offset) = .ok (f.stringLength id offset) :=
      f.metaData_getInt32 (by rw [keyPlace]; omega) (by rw [keyPlace]; omega)
    rw [getKeyPart_of_passes (by decide) hoffset hpasses, hlength, ok_bind]
    by_cases hbad : f.stringLength id offset < 0 ∨ maxKeyLength < i32 (offset + f.stringLength id offset)
    · refine .inr ⟨?_, ?_⟩
      · rintro ⟨_, hnonneg, hend⟩
        rw [maxKeyLength] at hbad
        omega
      · rw [if_pos hbad]
        exact ⟨_, rfl⟩
    · obtain ⟨hnonneg, hend⟩ := not_or.mp hbad
      have hstring : f.StringPasses id offset := ⟨hpasses, Int.not_lt.mp hnonneg, Int.not_lt.mp hend⟩
      refine .inl ⟨hstring, _, ?_, fun _ => rfl⟩
      rw [if_neg hbad, getBytesArray_string hstring]
      rfl
  · exact .inr ⟨fun hstring => hpasses hstring.1, getKeyPart_of_refused (by decide) hoffset hpasses _⟩

omit hoffset in
theorem passes_iff_inKey {size : Int} (hsize : 0 ≤ size ∧ size ≤ 8) :
    (f.Passes size id offset ↔ f.InKey size id offset) ↔ f.PartSound size id offset := by
  rw [Passes, InKey, PartSound]
  by_cases halloc : f.Allocated id
  · simp only [halloc, true_and, forall_const]
    omega
  · simp only [halloc, false_and, false_imp_iff]

omit hoffset in
theorem stringPasses_iff_inKey :
    (f.StringPasses id offset ↔ f.StringInKey id offset) ↔ f.StringSound id offset := by
  obtain ⟨hlo, hhi⟩ : I32 (f.stringLength id offset) := getInt32_range f.metaData (keyPlace id offset)
  rw [StringPasses, StringInKey, Passes, InKey, InKey, StringSound]
  by_cases halloc : f.Allocated id
  · simp only [halloc, true_and, forall_const]
    unfold i32
    omega
  · simp only [halloc, false_and, false_imp_iff]

end Accessors

/-- **Where the accessors read exactly the key.** -/
theorem key_parts_exact_iff (id offset : Int) (hoffset : I32 offset) :
    (f.Int32Exact id offset ↔ f.PartSound 4 id offset) ∧ (f.Int64Exact id offset ↔ f.PartSound 8 id offset) ∧
      (f.StringExact id offset ↔ f.StringSound id offset) :=
  ⟨(int32Exact_iff hoffset).trans (passes_iff_inKey (by decide)),
    (int64Exact_iff hoffset).trans (passes_iff_inKey (by decide)),
    (stringExact_iff hoffset).trans stringPasses_iff_inKey⟩

theorem key_parts_exact_iff_start : I32 0 ∧
    ((oneOf 2 (by decide)).Int32Exact 0 0 ↔ (oneOf 2 (by decide)).PartSound 4 0 0) ∧
      ((oneOf 2 (by decide)).Int64Exact 0 0 ↔ (oneOf 2 (by decide)).PartSound 8 0 0) ∧
      ((oneOf 2 (by decide)).StringExact 0 0 ↔ (oneOf 2 (by decide)).StringSound 0 0) :=
  ⟨by decide, key_parts_exact_iff (oneOf 2 (by decide)) 0 0 (by decide)⟩

/-- A file whose first record has the deadline `7 * 2 ^ 32`, a key that ends in 9 and, four bytes before, a string whose
bytes would be those, with the length of the label behind it. -/
def keyed : CountersFile :=
  ⟨2, put 4 (put 4 (put 4 (put 4 (fun _ => 0) 0 1) 12 7) 120 8) 124 9, fun _ => 0, by decide⟩

/-- In the first record the deadline is read as a part of the key, the last part of the key is refused, and a string is
read that ends in the length of the label; in the last record, allocated or not, every part is refused. -/
theorem key_parts_misread : keyed.Allocated 0 ∧
    keyed.reader.getKeyPartInt32 0 (-4) = .ok (.ok 7) ∧
      (keyed.reader.getKeyPartInt32 0 108).map Except.toOption = .ok none ∧
      getInt32 keyed.metaData (keyPlace 0 108) = 9 ∧
      keyed.reader.getKeyPartString 0 104 = .ok (.ok [9, 0, 0, 0, 0, 0, 0, 0]) ∧
      (oneOf 1 (by decide)).Allocated 0 ∧
      ((oneOf 1 (by decide)).reader.getKeyPartInt32 0 0).map Except.toOption = .ok none := by
  decide +kernel

end CountersFile

end AeronGo.Counters
