import AeronGo.Atomic.Buffer

/-!
# Counters reader

`aeron/counters/reader.go`: the counters file as two buffers, one record of each for a counter. The
callbacks of the scans pass a state on; a label is the bytes that the callback sees while it is called.
A loop that goes on past every record of the metadata buffer is `Stop.unfinished`.
-/

namespace AeronGo.Counters

open Machine Atomic

def counterLength : Int := 128

def fullLabelLength : Int := 384

def labelOffset : Int := 128

def metadataLength : Int := labelOffset + fullLabelLength

def maxKeyLength : Int := 112

def typeIdOffset : Int := 4

def keyOffset : Int := 16

def recordUnused : Int := 0

def recordAllocated : Int := 1

def nullCounterId : Int := -1

structure Reader where
  metaData : Buffer
  values : Buffer
  maxCounterID : Int

structure Counter where
  id : Int
  typeId : Int
  value : Int
  label : List UInt8
deriving DecidableEq, Repr

def newReader (values metaData : Buffer) : Reader := ⟨metaData, values, values.length.tdiv counterLength - 1⟩

def counterOffset (counterId : Int) : Int := i32 (counterId * counterLength)

/-- `counterId * MetadataLength`. -/
def metaDataOffset (counterId : Int) : Int := i32 (counterId * metadataLength)

namespace Reader

variable {σ : Type} (reader : Reader)

/-- `labelValueUnsafe`: the scratch slice has the capacity of a full label, and slicing past it panics. -/
def labelValueUnsafe (offset : Int) : Except Stop (List UInt8) := do
  let labelSize ← reader.metaData.getInt32 (i32 (offset + labelOffset))
  if labelSize < 0 ∨ fullLabelLength < labelSize then .error .panic
  else reader.metaData.getBytes (i32 (offset + labelOffset + 4)) labelSize.toNat

/-- The loop of `scan`, from the record at `i`. -/
def scanLoop (cb : σ → Counter → σ) (bytesToString : List UInt8 → Except Stop (List UInt8)) :
    Nat → Int → Int → σ → Except Stop σ
  | 0, _, _, _ => .error .unfinished
  | fuel + 1, i, id, st =>
    if i < reader.metaData.length then do
      let recordStatus ← reader.metaData.getInt32 i
      if recordStatus = recordUnused then return st
      else if recordStatus = recordAllocated then
        let typeId ← reader.metaData.getInt32 (i32 (i + typeIdOffset))
        let label ← reader.labelValueUnsafe i
        let value ← reader.values.getInt64 (counterOffset id)
        let label ← bytesToString label
        scanLoop cb bytesToString fuel (i32 (i + metadataLength)) (i32 (id + 1)) (cb st ⟨id, typeId, value, label⟩)
      else scanLoop cb bytesToString fuel (i32 (i + metadataLength)) (i32 (id + 1)) st
    else return st

/-- `scan`. -/
def scanWith (cb : σ → Counter → σ) (bytesToString : List UInt8 → Except Stop (List UInt8)) (st : σ) : Except Stop σ :=
  reader.scanLoop cb bytesToString (reader.metaData.length.toNat + 1) 0 0 st

/-- `Scan`. -/
def scan (cb : σ → Counter → σ) (st : σ) : Except Stop σ := reader.scanWith cb .ok st

/-- `ScanUnsafe`: the string is made from the address of the first byte. -/
def scanUnsafe (cb : σ → Counter → σ) (st : σ) : Except Stop σ :=
  reader.scanWith cb (fun labelBytes => if labelBytes = [] then .error .panic else .ok labelBytes) st

/-- The buffer over a record's key. -/
def keyBuffer (offset : Int) : Buffer := ⟨fun i => reader.metaData.bytes (offset + keyOffset + i), maxKeyLength⟩

/-- The loop of `ScanForType`, with the ids that are left. -/
def scanForTypeLoop (typeId : Int) (callback : σ → Int → Buffer → Bool × σ) : Nat → Int → σ → Except Stop σ
  | 0, _, st => .ok st
  | count + 1, counterId, st => do
    let offset := metaDataOffset counterId
    let recordStatus ← reader.metaData.getInt32 offset
    if recordStatus = recordUnused then return st
    else if recordStatus = recordAllocated then
      let thisTypeId ← reader.metaData.getInt32 (i32 (offset + 4))
      if thisTypeId = typeId then
        match callback st counterId (reader.keyBuffer offset) with
        | (true, st) => scanForTypeLoop typeId callback count (counterId + 1) st
        | (false, st) => return st
      else scanForTypeLoop typeId callback count (counterId + 1) st
    else scanForTypeLoop typeId callback count (counterId + 1) st

def scanForType (typeId : Int) (callback : σ → Int → Buffer → Bool × σ) (st : σ) : Except Stop σ :=
  reader.scanForTypeLoop typeId callback reader.maxCounterID.toNat 0 st

/-- The loop of `FindCounter`; a filter can be missing. -/
def findCounterLoop (typeId : Int) (keyFilter : Option (Buffer → Bool)) : Nat → Int → Except Stop Int
  | 0, _ => .ok nullCounterId
  | count + 1, id => do
    let offset := metaDataOffset id
    let recordStatus ← reader.metaData.getInt32 offset
    if recordStatus = recordUnused then return nullCounterId
    else if recordStatus = recordAllocated then
      let thisTypeId ← reader.metaData.getInt32 (i32 (offset + 4))
      if thisTypeId = typeId then
        if keyFilter.all (· (reader.keyBuffer offset)) then return id
        else findCounterLoop typeId keyFilter count (id + 1)
      else findCounterLoop typeId keyFilter count (id + 1)
    else findCounterLoop typeId keyFilter count (id + 1)

def findCounter (typeId : Int) (keyFilter : Option (Buffer → Bool)) : Except Stop Int :=
  reader.findCounterLoop typeId keyFilter reader.maxCounterID.toNat 0

/-! ## One counter -/

/-- `counterId < 0 || counterId >= maxCounterID`. -/
def outside (counterId : Int) : Bool := counterId < 0 ∨ i32 reader.maxCounterID ≤ counterId

def getCounterValue (counterId : Int) : Except Stop Int :=
  if reader.outside counterId then .ok 0 else reader.values.getInt64 (counterOffset counterId)

def getCounterTypeId (counterId : Int) : Except Stop Int :=
  if reader.outside counterId then .ok (-1)
  else reader.metaData.getInt32 (i32 (metaDataOffset counterId + typeIdOffset))

def isCounterAllocated (counterId : Int) : Except Stop Bool :=
  if reader.outside counterId then .ok false
  else do return (← reader.metaData.getInt32 (metaDataOffset counterId)) = recordAllocated

/-! ## Parts of a key -/

/-- `validateCounterIdAndOffset`: the error, if there is one. -/
def validateCounterIdAndOffset (counterId offset : Int) : Option String :=
  if reader.outside counterId then
    some ("counterId=" ++ toString counterId ++ " maxCounterId=" ++ toString reader.maxCounterID)
  else if offset < 0 ∨ maxKeyLength ≤ offset then
    some ("counterId=" ++ toString counterId ++ " offset=" ++ toString offset ++ " maxKeyLength=" ++
      toString maxKeyLength)
  else none

/-- What the three accessors do alike: the id and the end of a part of `size` bytes are checked, then the status. -/
def getKeyPart {α : Type} (size counterId offset : Int) (get : Int → Except Stop (Except String α)) :
    Except Stop (Except String α) :=
  match reader.validateCounterIdAndOffset counterId (i32 (offset + size)) with
  | some err => .ok (.error err)
  | none => do
    let recordStatus ← reader.metaData.getInt32 (metaDataOffset counterId)
    if recordStatus ≠ recordAllocated then
      return .error ("counterId=" ++ toString counterId ++ " recordStatus=" ++ toString recordStatus)
    else get (i32 (metaDataOffset counterId + keyOffset + offset))

def getKeyPartInt32 (counterId offset : Int) : Except Stop (Except String Int) :=
  reader.getKeyPart 4 counterId offset fun place => do return .ok (← reader.metaData.getInt32 place)

def getKeyPartInt64 (counterId offset : Int) : Except Stop (Except String Int) :=
  reader.getKeyPart 8 counterId offset fun place => do return .ok (← reader.metaData.getInt64 place)

def getKeyPartString (counterId offset : Int) : Except Stop (Except String (List UInt8)) :=
  reader.getKeyPart 4 counterId offset fun lengthOffset => do
    let length ← reader.metaData.getInt32 lengthOffset
    if length < 0 ∨ maxKeyLength < i32 (offset + length) then
      return .error ("counterId=" ++ toString counterId ++ " offset=" ++ toString offset ++ " length=" ++
        toString length)
    else return .ok (← reader.metaData.getBytesArray (i32 (lengthOffset + 4)) length)

end Reader

end AeronGo.Counters
