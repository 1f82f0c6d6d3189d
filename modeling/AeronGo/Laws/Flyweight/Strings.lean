import AeronGo.Driver.Flyweights
import AeronGo.Laws.Flyweight.Fields

/-!
# Strings one after another

Strings are laid out from a running offset on, each behind its length and each length aligned or not (`Laid`). Wrapping the
fields in this order reads every string back, with sizes that move the offset from string to string
(`readAll_laid`), so the messages of the driver are decoded.
-/

namespace AeronGo.Flyweight

open Machine Atomic

/-- The end of a string that is put at a running offset. -/
def stringEnd (entry : Bool × List UInt8) (pos : Int) : Int := stringStart entry.1 pos + 4 + entry.2.length

/-- The strings lie one after another. -/
def Laid (m : Memory) : Int → List (Bool × List UInt8) → Prop
  | _, [] => True
  | pos, entry :: rest => Lays m (stringStart entry.1 pos) (lengthAndData entry.2) ∧ Laid m (stringEnd entry pos) rest

/-- The end of the last string. -/
def endOf : Int → List (Bool × List UInt8) → Int
  | pos, [] => pos
  | pos, entry :: rest => endOf (stringEnd entry pos) rest

/-- Each string, with the distance from the running offset to its end. -/
def extents : Int → List (Bool × List UInt8) → List (List UInt8 × Int)
  | _, [] => []
  | pos, entry :: rest => (entry.2, stringEnd entry pos - pos) :: extents (stringEnd entry pos) rest

/-- Fields wrapped at the running offset: the string that each one gives, and the size that its `Wrap` returned. -/
def readAll (b : Buffer) : Int → List Bool → Except Stop (List (List UInt8 × Int))
  | _, [] => .ok []
  | pos, align :: rest => do
    let (fld, n) ← StringField.wrap b pos align
    let value ← fld.get b
    let others ← readAll b (pos + n) rest
    return (value, n) :: others

theorem le_stringEnd (entry : Bool × List UInt8) (pos : Int) : pos ≤ stringEnd entry pos := by
  unfold stringEnd stringStart
  split <;> omega

theorem le_endOf (entries : List (Bool × List UInt8)) (pos : Int) : pos ≤ endOf pos entries := by
  induction entries generalizing pos with
  | nil => exact Int.le_refl pos
  | cons entry rest ih => exact Int.le_trans (le_stringEnd entry pos) (ih _)

theorem sum_extents (entries : List (Bool × List UInt8)) (pos : Int) :
    ((extents pos entries).map Prod.snd).sum = endOf pos entries - pos := by
  induction entries generalizing pos with
  | nil => exact (Int.sub_self pos).symm
  | cons entry rest ih =>
    rw [extents, List.map_cons, List.sum_cons, ih, endOf]
    omega

variable {b : Buffer} (hs : b.length < 2147483648)

include hs

/-- A string that ends in the buffer is wrapped at its running offset and read back. -/
theorem wrap_entry {entry : Bool × List UInt8} {pos : Int} (lo : 0 ≤ pos)
    (h : Lays b.bytes (stringStart entry.1 pos) (lengthAndData entry.2)) (hend : stringEnd entry pos ≤ b.length) :
    ∃ fld, StringField.wrap b pos entry.1 = .ok (fld, stringEnd entry pos - pos) ∧ fld.get b = .ok entry.2 := by
  have hlo : 0 ≤ stringStart entry.1 pos := by
    unfold stringStart
    split <;> omega
  unfold stringEnd at hend
  exact ⟨_, StringField.wrap_ok hs lo rfl h hend, StringField.get_ok h (by omega)⟩

theorem readAll_laid (entries : List (Bool × List UInt8)) {pos : Int} (lo : 0 ≤ pos) (h : Laid b.bytes pos entries)
    (hend : endOf pos entries ≤ b.length) : readAll b pos (entries.map Prod.fst) = .ok (extents pos entries) := by
  induction entries generalizing pos with
  | nil => rfl
  | cons entry rest ih =>
    have hle := le_stringEnd entry pos
    obtain ⟨fld, hwrap, hget⟩ := wrap_entry hs lo h.1 (Int.le_trans (le_endOf rest _) hend)
    have hnext : pos + (stringEnd entry pos - pos) = stringEnd entry pos := by omega
    rw [List.map_cons, readAll, hwrap, ok_bind]
    dsimp only
    rw [hget, ok_bind, hnext, ih (by omega) h.2 hend]
    rfl

end AeronGo.Flyweight

namespace AeronGo.Driver

open Machine Atomic Flyweight

section Messages

variable {b : Buffer} (hs : b.length < 2147483648)

include hs

theorem PublicationReady.wrap_laid {offset : Int} {logFileName : List UInt8} (lo : 0 ≤ offset)
    (h : Laid b.bytes (offset + 32) [(true, logFileName)]) (hend : endOf (offset + 32) [(true, logFileName)] ≤ b.length) :
    ∃ m, PublicationReady.wrap b offset = .ok m ∧ m.logFileName.get b = .ok logFileName ∧
      m.size = endOf (offset + 32) [(true, logFileName)] - offset := by
  have hle := le_endOf [(true, logFileName)] (offset + 32)
  have hpos : offset + 8 + 8 + 4 + 4 + 4 + 4 = offset + 32 := by omega
  obtain ⟨fld, hwrap, hget⟩ := wrap_entry hs (by omega) h.1 hend
  refine ⟨⟨⟨offset⟩, ⟨offset + 8⟩, ⟨offset + 8 + 8⟩, ⟨offset + 8 + 8 + 4⟩, ⟨offset + 8 + 8 + 4 + 4⟩,
    ⟨offset + 8 + 8 + 4 + 4 + 4⟩, fld, endOf (offset + 32) [(true, logFileName)] - offset⟩, ?_, hget, rfl⟩
  simp (disch := omega) only [wrap, Int64Field.wrap_ok hs, Int32Field.wrap_ok hs, ok_bind, hpos, hwrap]
  simp [endOf, pure, Except.pure]

theorem ImageReadyHeader.wrap_laid {offset : Int} {logFile sourceIdentity : List UInt8} (lo : 0 ≤ offset)
    (h : Laid b.bytes (offset + 28) [(true, logFile), (true, sourceIdentity)])
    (hend : endOf (offset + 28) [(true, logFile), (true, sourceIdentity)] ≤ b.length) :
    ∃ m, ImageReadyHeader.wrap b offset = .ok m ∧ m.logFile.get b = .ok logFile ∧
      m.sourceIdentity.get b = .ok sourceIdentity ∧
      m.size = endOf (offset + 28) [(true, logFile), (true, sourceIdentity)] - offset := by
  have hle := le_stringEnd (true, logFile) (offset + 28)
  have hrest := le_endOf [(true, sourceIdentity)] (stringEnd (true, logFile) (offset + 28))
  have hroom : offset + 28 ≤ b.length := Int.le_trans hle (Int.le_trans hrest hend)
  have hpos : offset + 8 + 4 + 4 + 8 + 4 = offset + 28 := by omega
  have hnext : offset + 28 + (stringEnd (true, logFile) (offset + 28) - (offset + 28)) =
    stringEnd (true, logFile) (offset + 28) := by omega
  obtain ⟨fld, hwrap, hget⟩ := wrap_entry hs (by omega) h.1 (Int.le_trans hrest hend)
  obtain ⟨fld', hwrap', hget'⟩ := wrap_entry hs (by omega) h.2.1 hend
  refine ⟨⟨⟨offset⟩, ⟨offset + 8⟩, ⟨offset + 8 + 4⟩, ⟨offset + 8 + 4 + 4⟩, ⟨offset + 8 + 4 + 4 + 8⟩, fld, fld',
    endOf (offset + 28) [(true, logFile), (true, sourceIdentity)] - offset⟩, ?_, hget, hget', rfl⟩
  simp (disch := omega) only [wrap, Int64Field.wrap_ok hs, Int32Field.wrap_ok hs, ok_bind, hpos, hwrap, hnext, hwrap']
  simp [endOf, pure, Except.pure]

end Messages

/-- **Flyweight strings chain.** Strings that lie one after another are read back from fields wrapped at the running
offset; every size is the distance to the end of its string, and the sizes sum up to the span. The messages that carry log
file names and source identities are decoded. -/
theorem strings_chain (b : Buffer) (hs : b.length < 2147483648) :
    (∀ (entries : List (Bool × List UInt8)) (pos : Int), 0 ≤ pos → Laid b.bytes pos entries → endOf pos entries ≤ b.length →
      readAll b pos (entries.map Prod.fst) = .ok (extents pos entries) ∧
        ((extents pos entries).map Prod.snd).sum = endOf pos entries - pos) ∧
      (∀ (offset : Int) (logFileName : List UInt8), 0 ≤ offset → Laid b.bytes (offset + 32) [(true, logFileName)] →
        endOf (offset + 32) [(true, logFileName)] ≤ b.length →
        ∃ m, PublicationReady.wrap b offset = .ok m ∧ m.logFileName.get b = .ok logFileName ∧
          m.size = endOf (offset + 32) [(true, logFileName)] - offset) ∧
      ∀ (offset : Int) (logFile sourceIdentity : List UInt8), 0 ≤ offset →
        Laid b.bytes (offset + 28) [(true, logFile), (true, sourceIdentity)] →
        endOf (offset + 28) [(true, logFile), (true, sourceIdentity)] ≤ b.length →
        ∃ m, ImageReadyHeader.wrap b offset = .ok m ∧ m.logFile.get b = .ok logFile ∧
          m.sourceIdentity.get b = .ok sourceIdentity ∧
          m.size = endOf (offset + 28) [(true, logFile), (true, sourceIdentity)] - offset :=
  ⟨fun entries pos lo h hend => ⟨readAll_laid hs entries lo h hend, sum_extents entries pos⟩,
    fun _ _ lo h hend => PublicationReady.wrap_laid hs lo h hend,
    fun _ _ _ lo h hend => ImageReadyHeader.wrap_laid hs lo h hend⟩

/-- One byte, two bytes behind padding, and two more unaligned; the first two are the names of an image, and the second
the log file of a publication. -/
theorem strings_chain_three : ∃ b : Buffer,
    readAll b 26 [true, true, false] = .ok [([7], 7), ([8, 9], 9), ([5, 6], 6)] ∧
      (∃ m, PublicationReady.wrap b 4 = .ok m ∧ m.logFileName.get b = .ok [8, 9] ∧ m.size = 38) ∧
      ∃ m, ImageReadyHeader.wrap b 0 = .ok m ∧ m.logFile.get b = .ok [7] ∧ m.sourceIdentity.get b = .ok [8, 9] ∧
        m.size = 42 := by
  let bytes : List UInt8 := [1, 0, 0, 0, 7, 0, 0, 0, 2, 0, 0, 0, 8, 9, 2, 0, 0, 0, 5, 6]
  let b : Buffer := ⟨write (fun _ => 0) 28 bytes, 48⟩
  obtain ⟨hstrings, hpublication, himage⟩ := strings_chain b (by decide)
  refine ⟨b, ?_, ?_, ?_⟩
  · exact (hstrings [(true, [7]), (true, [8, 9]), (false, [5, 6])] 26 (by decide) ⟨by rfl, by rfl, by rfl, trivial⟩
      (by decide)).1
  · exact hpublication 4 [8, 9] (by decide) ⟨by rfl, trivial⟩ (by decide)
  · exact himage 0 [7] [8, 9] (by decide) ⟨by rfl, by rfl, trivial⟩ (by decide)

end AeronGo.Driver
