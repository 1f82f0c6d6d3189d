import AeronGo.Archive.Control

/-!
# The messages of the control stream

The generated codecs `archive/codecs` of the messages that an archive sends to its client, and their
header. Decoding fills a message field after field. Where it fails, the message keeps what was read until
then: some of the handlers go on with it. Every field is there since version 0, but for the version of a
control response, which came with version 4.
-/

namespace AeronGo.Archive.Codecs

open Machine

/-- A text, as the bytes that it is printed in. -/
abbrev Text := List UInt8

def text (s : String) : Text := s.toUTF8.toList

def schemaVersion : Int := 6

/-! ## Filling a message -/

/-- A message that is being decoded: what it holds, the bytes left, and the error that ended it. -/
structure Filling (σ : Type) where
  value : σ
  rest : List UInt8
  error : Option Text
deriving DecidableEq, Repr

namespace Filling

variable {σ : Type}

def start (value : σ) (bytes : List UInt8) : Filling σ := ⟨value, bytes, none⟩

/-- `io.ReadFull` of `n` bytes. -/
def readFull (n : Nat) (set : σ → List UInt8 → σ) (f : Filling σ) : Filling σ :=
  match f.error with
  | some _ => f
  | none =>
    if n ≤ f.rest.length then ⟨set f.value (f.rest.take n), f.rest.drop n, none⟩
    else ⟨f.value, [], some (text (if f.rest = [] then "EOF" else "unexpected EOF"))⟩

def int64 (set : σ → Int → σ) : Filling σ → Filling σ := readFull 8 fun v bytes => set v (i64 (leVal bytes))

def int32 (set : σ → Int → σ) : Filling σ → Filling σ := readFull 4 fun v bytes => set v (i32 (leVal bytes))

/-- A field that came with a version. An older message does not hold it: the field keeps the null value that
it starts with. -/
def since (sinceVersion actingVersion : Int) (read : Filling σ → Filling σ) (f : Filling σ) : Filling σ :=
  if sinceVersion ≤ actingVersion then read f else f

/-- The rest of the block of a newer version is dropped. -/
def skip (actingVersion blockLength sbeBlockLength : Int) (f : Filling σ) : Filling σ :=
  match f.error with
  | some _ => f
  | none =>
    if schemaVersion < actingVersion ∧ sbeBlockLength < blockLength then
      { f with rest := f.rest.drop (blockLength - sbeBlockLength).toNat }
    else f

/-- A length and as many bytes. The field is made before it is read, so what is missing is zero. -/
def varData (set : σ → List UInt8 → σ) (f : Filling σ) : Filling σ :=
  match f.error with
  | some _ => f
  | none =>
    if 4 ≤ f.rest.length then
      let length := (leVal (f.rest.take 4)).toNat
      let rest := f.rest.drop 4
      if length ≤ rest.length then ⟨set f.value (rest.take length), rest.drop length, none⟩
      else ⟨set f.value (rest ++ List.replicate (length - rest.length) 0), [],
        some (text (if rest = [] then "EOF" else "unexpected EOF"))⟩
    else ⟨f.value, [], some (text (if f.rest = [] then "EOF" else "unexpected EOF"))⟩

/-- The first problem of the range checks, if they are done. -/
def rangeCheck (doRangeCheck : Bool) (problems : σ → List (Option Text)) (f : Filling σ) : Filling σ :=
  match f.error with
  | some _ => f
  | none => if doRangeCheck then { f with error := (problems f.value).findSome? id } else f

end Filling

/-! ## Range checks -/

def inRange (field : String) (min value max : Int) : Option Text :=
  if value < min ∨ max < value then
    some (text ("Range check failed on " ++ field ++ " (" ++ toString min ++ " < " ++ toString value ++ " > " ++
      toString max ++ ")"))
  else none

/-- The least value of an `int64` field is its null value. -/
def int64Range (field : String) (value : Int) : Option Text :=
  inRange field (-9223372036854775807) value 9223372036854775807

def int32Range (field : String) (value : Int) : Option Text := inRange field (-2147483647) value 2147483647

def versionRange (value : Int) : Option Text := if value = 0 then none else inRange "c.Version" 2 value 16777215

/-- An enumeration is not checked in a newer version. -/
def enumRange (name : String) (values : List Int) (actingVersion value : Int) : Option Text :=
  if schemaVersion < actingVersion ∨ value ∈ values then none
  else some (text ("Range check failed on " ++ name ++ ", unknown enumeration value " ++ toString value))

/-! ## The header -/

structure SbeGoMessageHeader where
  blockLength : Int := 0
  templateId : Int := 0
  schemaId : Int := 0
  version : Int := 0
deriving DecidableEq, Repr

variable (bytes : List UInt8) (actingVersion blockLength : Int) (doRangeCheck : Bool)

def SbeGoMessageHeader.decode : Filling SbeGoMessageHeader :=
  (Filling.start {} bytes).readFull 8 fun _ b =>
    { blockLength := leVal (b.take 2)
      templateId := leVal ((b.drop 2).take 2)
      schemaId := leVal ((b.drop 4).take 2)
      version := leVal ((b.drop 6).take 2) }

/-! ## The messages -/

def controlResponseCodes : List Int := [0, 1, 2, 3, -2147483648]

/-- The `int32` of a response code. -/
def controlResponseCode (value : Int) : ControlResponseCode :=
  if value = 0 then .OK
  else if value = 1 then .ERROR
  else if value = 2 then .RECORDING_UNKNOWN
  else if value = 3 then .SUBSCRIPTION_UNKNOWN
  else .other value

structure ControlResponse where
  controlSessionId : Int := 0
  correlationId : Int := 0
  relevantId : Int := 0
  codeValue : Int := 0
  version : Int := 0
  errorMessage : List UInt8 := []
deriving DecidableEq, Repr

namespace ControlResponse

def sbeTemplateId : Int := 1

def sbeBlockLength : Int := 32

def versionSinceVersion : Int := 4

def code (r : ControlResponse) : ControlResponseCode := controlResponseCode r.codeValue

def rangeCheck (actingVersion : Int) (r : ControlResponse) : List (Option Text) :=
  [int64Range "c.ControlSessionId" r.controlSessionId,
    int64Range "c.CorrelationId" r.correlationId,
    int64Range "c.RelevantId" r.relevantId,
    enumRange "ControlResponseCode" controlResponseCodes actingVersion r.codeValue,
    if versionSinceVersion ≤ actingVersion then versionRange r.version else none]

def decode : Filling ControlResponse :=
  (Filling.start {} bytes).int64 (fun r v => { r with controlSessionId := v })
    |>.int64 (fun r v => { r with correlationId := v })
    |>.int64 (fun r v => { r with relevantId := v })
    |>.int32 (fun r v => { r with codeValue := v })
    |>.since versionSinceVersion actingVersion (.int32 fun r v => { r with version := v })
    |>.skip actingVersion blockLength sbeBlockLength
    |>.varData (fun r v => { r with errorMessage := v })
    |>.rangeCheck doRangeCheck (rangeCheck actingVersion)

end ControlResponse

structure Challenge where
  controlSessionId : Int := 0
  correlationId : Int := 0
  version : Int := 0
  encodedChallenge : List UInt8 := []
deriving DecidableEq, Repr

namespace Challenge

def sbeTemplateId : Int := 59

def sbeBlockLength : Int := 20

def rangeCheck (c : Challenge) : List (Option Text) :=
  [int64Range "c.ControlSessionId" c.controlSessionId,
    int64Range "c.CorrelationId" c.correlationId,
    versionRange c.version]

def decode : Filling Challenge :=
  (Filling.start {} bytes).int64 (fun c v => { c with controlSessionId := v })
    |>.int64 (fun c v => { c with correlationId := v })
    |>.int32 (fun c v => { c with version := v })
    |>.skip actingVersion blockLength sbeBlockLength
    |>.varData (fun c v => { c with encodedChallenge := v })
    |>.rangeCheck doRangeCheck rangeCheck

end Challenge

structure RecordingDescriptor where
  controlSessionId : Int := 0
  correlationId : Int := 0
  recordingId : Int := 0
  startTimestamp : Int := 0
  stopTimestamp : Int := 0
  startPosition : Int := 0
  stopPosition : Int := 0
  initialTermId : Int := 0
  segmentFileLength : Int := 0
  termBufferLength : Int := 0
  mtuLength : Int := 0
  sessionId : Int := 0
  streamId : Int := 0
  strippedChannel : List UInt8 := []
  originalChannel : List UInt8 := []
  sourceIdentity : List UInt8 := []
deriving DecidableEq, Repr

namespace RecordingDescriptor

def sbeTemplateId : Int := 22

def sbeBlockLength : Int := 80

def rangeCheck (r : RecordingDescriptor) : List (Option Text) :=
  [int64Range "r.ControlSessionId" r.controlSessionId,
    int64Range "r.CorrelationId" r.correlationId,
    int64Range "r.RecordingId" r.recordingId,
    int64Range "r.StartTimestamp" r.startTimestamp,
    int64Range "r.StopTimestamp" r.stopTimestamp,
    int64Range "r.StartPosition" r.startPosition,
    int64Range "r.StopPosition" r.stopPosition,
    int32Range "r.InitialTermId" r.initialTermId,
    int32Range "r.SegmentFileLength" r.segmentFileLength,
    int32Range "r.TermBufferLength" r.termBufferLength,
    int32Range "r.MtuLength" r.mtuLength,
    int32Range "r.SessionId" r.sessionId,
    int32Range "r.StreamId" r.streamId]

def decode : Filling RecordingDescriptor :=
  (Filling.start {} bytes).int64 (fun r v => { r with controlSessionId := v })
    |>.int64 (fun r v => { r with correlationId := v })
    |>.int64 (fun r v => { r with recordingId := v })
    |>.int64 (fun r v => { r with startTimestamp := v })
    |>.int64 (fun r v => { r with stopTimestamp := v })
    |>.int64 (fun r v => { r with startPosition := v })
    |>.int64 (fun r v => { r with stopPosition := v })
    |>.int32 (fun r v => { r with initialTermId := v })
    |>.int32 (fun r v => { r with segmentFileLength := v })
    |>.int32 (fun r v => { r with termBufferLength := v })
    |>.int32 (fun r v => { r with mtuLength := v })
    |>.int32 (fun r v => { r with sessionId := v })
    |>.int32 (fun r v => { r with streamId := v })
    |>.skip actingVersion blockLength sbeBlockLength
    |>.varData (fun r v => { r with strippedChannel := v })
    |>.varData (fun r v => { r with originalChannel := v })
    |>.varData (fun r v => { r with sourceIdentity := v })
    |>.rangeCheck doRangeCheck rangeCheck

end RecordingDescriptor

structure RecordingSubscriptionDescriptor where
  controlSessionId : Int := 0
  correlationId : Int := 0
  subscriptionId : Int := 0
  streamId : Int := 0
  strippedChannel : List UInt8 := []
deriving DecidableEq, Repr

namespace RecordingSubscriptionDescriptor

def sbeTemplateId : Int := 23

def sbeBlockLength : Int := 28

def rangeCheck (r : RecordingSubscriptionDescriptor) : List (Option Text) :=
  [int64Range "r.ControlSessionId" r.controlSessionId,
    int64Range "r.CorrelationId" r.correlationId,
    int64Range "r.SubscriptionId" r.subscriptionId,
    int32Range "r.StreamId" r.streamId]

def decode : Filling RecordingSubscriptionDescriptor :=
  (Filling.start {} bytes).int64 (fun r v => { r with controlSessionId := v })
    |>.int64 (fun r v => { r with correlationId := v })
    |>.int64 (fun r v => { r with subscriptionId := v })
    |>.int32 (fun r v => { r with streamId := v })
    |>.skip actingVersion blockLength sbeBlockLength
    |>.varData (fun r v => { r with strippedChannel := v })
    |>.rangeCheck doRangeCheck rangeCheck

end RecordingSubscriptionDescriptor

/-- `START` to `REPLICATE_END` and the null value. -/
def recordingSignals : List Int := [0, 1, 2, 3, 4, 5, 6, 7, -2147483648]

structure RecordingSignalEvent where
  controlSessionId : Int := 0
  correlationId : Int := 0
  recordingId : Int := 0
  subscriptionId : Int := 0
  position : Int := 0
  signal : Int := 0
deriving DecidableEq, Repr

namespace RecordingSignalEvent

def sbeTemplateId : Int := 24

def sbeBlockLength : Int := 44

def rangeCheck (actingVersion : Int) (r : RecordingSignalEvent) : List (Option Text) :=
  [int64Range "r.ControlSessionId" r.controlSessionId,
    int64Range "r.CorrelationId" r.correlationId,
    int64Range "r.RecordingId" r.recordingId,
    int64Range "r.SubscriptionId" r.subscriptionId,
    int64Range "r.Position" r.position,
    enumRange "RecordingSignal" recordingSignals actingVersion r.signal]

def decode : Filling RecordingSignalEvent :=
  (Filling.start {} bytes).int64 (fun r v => { r with controlSessionId := v })
    |>.int64 (fun r v => { r with correlationId := v })
    |>.int64 (fun r v => { r with recordingId := v })
    |>.int64 (fun r v => { r with subscriptionId := v })
    |>.int64 (fun r v => { r with position := v })
    |>.int32 (fun r v => { r with signal := v })
    |>.skip actingVersion blockLength sbeBlockLength
    |>.rangeCheck doRangeCheck (rangeCheck actingVersion)

end RecordingSignalEvent

end AeronGo.Archive.Codecs
