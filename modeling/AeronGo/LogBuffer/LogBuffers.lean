import AeronGo.Util.MemMap

/-!
# Log files

`Wrap` and `Close` of `aeron/logbuffer/logbuffers.go` with the checks of `descriptor.go`: a log file is three
terms and a page of metadata. A buffer is a pointer into a mapping, and a length.
-/

namespace AeronGo.LogBuffer

open Machine Atomic Util MemMap

/-- `LogMetaDataLength`. -/
def logMetaDataLength : Int := 4096

def termMinLength : Int := 65536

def termMaxLength : Int := 1073741824

def maxSingleMappingSize : Int := 2147483647

def checkTermLength (termLength : Int) : Except Stop Unit :=
  if termLength < termMinLength then .error .panic
  else if termMaxLength < termLength then .error .panic
  else if isPowerOfTwo termLength then .ok ()
  else .error .panic

/-- `computeTermLength`, on 32-bit words; division truncates. -/
def computeTermLength (logLength : Int) : Int := (i32 (logLength - logMetaDataLength)).tdiv 3

/-- A field of the metadata as it is wrapped: of fixed size behind a bounds check, raw, or up to an alignment. -/
inductive MetaField
  | fixed (size : Int)
  | raw (size : Int)
  | padding (size alignment : Int)

/-- The fields of `LogBufferMetaData`. -/
def metaFields : List MetaField :=
  [.fixed 8, .fixed 8, .fixed 8, .fixed 4, .padding 128 64,
    .fixed 8, .fixed 4, .fixed 4, .padding 128 64,
    .fixed 8, .fixed 4, .fixed 4, .fixed 4, .fixed 4, .fixed 4, .padding 64 64,
    .raw 32, .padding 128 64]

/-- `LogBufferMetaData.Wrap`: the end of the last field. -/
def wrapMeta (capacity : Int) : List MetaField → Int → Except Stop Int
  | [], pos => .ok pos
  | .fixed size :: fields, pos => do
    boundsCheck (i32 pos) size capacity
    wrapMeta capacity fields (pos + size)
  | .raw size :: fields, pos => wrapMeta capacity fields (pos + size)
  | .padding size alignment :: fields, pos =>
    let maxLength := i32 (i32 pos + size)
    let newLen := i32 (maxLength - maxLength.tmod alignment - i32 pos)
    wrapMeta capacity fields (pos + if newLen < 0 then i32 (newLen + alignment) else newLen)

/-- A buffer over a mapping. -/
structure Window where
  mmap : Nat
  offset : Int
  length : Int
deriving DecidableEq, Repr

structure LogBuffers where
  mmapFiles : List (Option File)
  /-- The terms, and then the metadata. -/
  buffers : List Window
deriving DecidableEq, Repr

/-- A failed mapping is a panic. -/
def orPanic {α : Type} : Option α → Except Stop α
  | none => .error .panic
  | some a => .ok a

/-- `GetMemoryPtr` of a file in the list; a nil pointer is a panic, as is an index outside. -/
def memoryPtr (files : List (Option File)) (i : Nat) : Except Stop Nat :=
  match files[i]? with
  | some (some file) => .ok file.mmap
  | _ => .error .panic

variable (grants : Region → Bool)

/-- The loop over the terms of a large file, one mapping for each of the `count` that are left. -/
def mapTerms (termLength : Int) :
    Nat → Nat → List (Option File) → List Window → World → Except Stop (List (Option File) × List Window × World)
  | 0, _, files, buffers, w => .ok (files, buffers, w)
  | count + 1, i, files, buffers, w => do
    let (mmap, w) ← orPanic (mapExisting grants w (i * termLength) termLength)
    let files := files ++ [some mmap]
    let basePtr ← memoryPtr files (i + 1)
    mapTerms termLength count (i + 1) files (buffers ++ [⟨basePtr, 0, termLength⟩]) w

def wrap (w : World) : Except Stop (LogBuffers × World) := do
  let logLength := w.fileSize
  let termLength := computeTermLength (i32 logLength)
  checkTermLength termLength
  if logLength < maxSingleMappingSize then
    let (mmap, w) ← orPanic (mapExisting grants w 0 0)
    let terms := (List.range 3).map fun (i : Nat) => (⟨mmap.mmap, i * termLength, termLength⟩ : Window)
    let _ ← wrapMeta logMetaDataLength metaFields 0
    return (⟨[some mmap], terms ++ [⟨mmap.mmap, logLength - logMetaDataLength, logMetaDataLength⟩]⟩, w)
  else
    -- the list starts with room for all files, and these are appended behind it
    let files := List.replicate 4 none
    let metaDataSectionOffset := termLength * 3
    let (mmap, w) ← orPanic (mapExisting grants w metaDataSectionOffset (logLength - metaDataSectionOffset))
    let (files, terms, w) ← mapTerms grants termLength 3 0 (files ++ [some mmap]) [] w
    let metaDataBasePtr ← memoryPtr files 0
    let _ ← wrapMeta logMetaDataLength metaFields 0
    return (⟨files, terms ++ [⟨metaDataBasePtr, 0, logMetaDataLength⟩]⟩, w)

/-- `Close` of every file in the list. -/
def closeFiles : List (Option File) → World → Except Stop World
  | [], w => .ok w
  | none :: _, _ => .error .panic
  | some file :: files, w => do
    let w ← file.close w
    closeFiles files w

def LogBuffers.close (logBuffers : LogBuffers) (w : World) : Except Stop (LogBuffers × World) := do
  let w ← closeFiles logBuffers.mmapFiles w
  return ({ logBuffers with mmapFiles := [] }, w)

end AeronGo.LogBuffer
