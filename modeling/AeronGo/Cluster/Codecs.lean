import AeronGo.Machine.Codec

/-!
# The messages of a snapshot

The generated codecs `cluster/codecs/SnapshotMarker.go` and `ClientSession.go`, their message header,
and the packets of `encoders.go`. Decoding reads field after field; a message of an older schema
version lacks the fields added since, and of a newer one the rest of its block is dropped. The error
of a read past the end is `eof`; the others are the texts of the range checks.
-/

namespace AeronGo.Cluster.Codecs

open Machine

def schemaId : Int := 111

def schemaVersion : Int := 16

inductive CodecError where
  | eof
  | rangeCheck (text : String)
deriving DecidableEq, Repr

abbrev Decoder (α : Type) := Reader CodecError α

namespace Decoder

def uint16 : Decoder Int := Reader.word .eof 2

def uint32 : Decoder Int := Reader.word .eof 4

def int32 : Decoder Int := do return i32 (← uint32)

def int64 : Decoder Int := do return i64 (← Reader.word .eof 8)

/-- A length and as many bytes. -/
def varData : Decoder (List UInt8) := do
  let length ← uint32
  Reader.take .eof length.toNat

end Decoder

/-! ## Range checks -/

def rangeText (field : String) (min value max : Int) : String :=
  "Range check failed on " ++ field ++ " (" ++ toString min ++ " < " ++ toString value ++ " > " ++ toString max ++ ")"

def inRange (field : String) (min value max : Int) : Except CodecError Unit :=
  if value < min ∨ max < value then .error (.rangeCheck (rangeText field min value max)) else .ok ()

/-- The least value of an `int64` field is its null value. -/
def int64Range (field : String) (value : Int) : Except CodecError Unit :=
  inRange field (-9223372036854775807) value 9223372036854775807

def int32Range (field : String) (value : Int) : Except CodecError Unit :=
  inRange field (-2147483647) value 2147483647

/-- ASCII validation of a character array. -/
def asciiCheck (field : String) : Nat → List UInt8 → Except CodecError Unit
  | _, [] => .ok ()
  | idx, ch :: rest =>
    if 127 < ch.toNat then
      .error (.rangeCheck (field ++ "[" ++ toString idx ++ "]=" ++ toString ch.toNat ++ " failed ASCII validation"))
    else asciiCheck field (idx + 1) rest

/-! ## Enumerations -/

inductive SnapshotMark where
  | BEGIN
  | SECTION
  | END
  | nullValue
  | unknown (value : Int)
deriving DecidableEq, Repr

namespace SnapshotMark

def ofInt (value : Int) : SnapshotMark :=
  if value = 0 then .BEGIN
  else if value = 1 then .SECTION
  else if value = 2 then .END
  else if value = -2147483648 then .nullValue
  else .unknown value

def toInt : SnapshotMark → Int
  | .BEGIN => 0
  | .SECTION => 1
  | .END => 2
  | .nullValue => -2147483648
  | .unknown value => value

def rangeCheck (actingVersion : Int) (mark : SnapshotMark) : Except CodecError Unit :=
  if schemaVersion < actingVersion then .ok ()
  else
    match mark with
    | .unknown value =>
      .error (.rangeCheck ("Range check failed on SnapshotMark, unknown enumeration value " ++ toString value))
    | _ => .ok ()

end SnapshotMark

inductive ClusterTimeUnit where
  | MILLIS
  | MICROS
  | NANOS
  | nullValue
  | unknown (value : Int)
deriving DecidableEq, Repr

namespace ClusterTimeUnit

def ofInt (value : Int) : ClusterTimeUnit :=
  if value = 0 then .MILLIS
  else if value = 1 then .MICROS
  else if value = 2 then .NANOS
  else if value = -2147483648 then .nullValue
  else .unknown value

def toInt : ClusterTimeUnit → Int
  | .MILLIS => 0
  | .MICROS => 1
  | .NANOS => 2
  | .nullValue => -2147483648
  | .unknown value => value

def rangeCheck (actingVersion : Int) (unit : ClusterTimeUnit) : Except CodecError Unit :=
  if schemaVersion < actingVersion then .ok ()
  else
    match unit with
    | .unknown value =>
      .error (.rangeCheck ("Range check failed on ClusterTimeUnit, unknown enumeration value " ++ toString value))
    | _ => .ok ()

end ClusterTimeUnit

/-! ## Message header -/

structure MessageHeader where
  blockLength : Int
  templateId : Int
  schemaId : Int
  version : Int
deriving DecidableEq, Repr

namespace MessageHeader

def encode (h : MessageHeader) : List UInt8 :=
  leBytes 2 h.blockLength ++ leBytes 2 h.templateId ++ leBytes 2 h.schemaId ++ leBytes 2 h.version

def decode : Decoder MessageHeader := do
  let blockLength ← Decoder.uint16
  let templateId ← Decoder.uint16
  let schemaId ← Decoder.uint16
  let version ← Decoder.uint16
  return ⟨blockLength, templateId, schemaId, version⟩

end MessageHeader

/-- Do a check while decoding. -/
def checked (check : Except CodecError Unit) : Decoder Unit :=
  match check with
  | .ok () => pure ()
  | .error e => Reader.fail e

/-- What a newer version added to the block is dropped. -/
def skipBlock (actingVersion blockLength sbeBlockLength : Int) : Decoder Unit :=
  if schemaVersion < actingVersion ∧ sbeBlockLength < blockLength then
    Reader.skip (blockLength - sbeBlockLength).toNat
  else pure ()

/-! ## Snapshot marker -/

structure SnapshotMarker where
  typeId : Int
  logPosition : Int
  leadershipTermId : Int
  index : Int
  mark : SnapshotMark
  timeUnit : ClusterTimeUnit
  appVersion : Int
deriving DecidableEq, Repr

namespace SnapshotMarker

def sbeBlockLength : Int := 40

def templateId : Int := 100

/-- The version that added the time unit and the application version. -/
def timeUnitSinceVersion : Int := 4

def rangeCheck (actingVersion : Int) (m : SnapshotMarker) : Except CodecError Unit := do
  int64Range "s.TypeId" m.typeId
  int64Range "s.LogPosition" m.logPosition
  int64Range "s.LeadershipTermId" m.leadershipTermId
  int32Range "s.Index" m.index
  m.mark.rangeCheck actingVersion
  m.timeUnit.rangeCheck actingVersion
  if timeUnitSinceVersion ≤ actingVersion ∧ m.appVersion ≠ 0 then inRange "s.AppVersion" 1 m.appVersion 16777215

def body (m : SnapshotMarker) : List UInt8 :=
  leBytes 8 m.typeId ++ (leBytes 8 m.logPosition ++ (leBytes 8 m.leadershipTermId ++ (leBytes 4 m.index ++
    (leBytes 4 m.mark.toInt ++ (leBytes 4 m.timeUnit.toInt ++ leBytes 4 m.appVersion)))))

def encode (m : SnapshotMarker) (doRangeCheck : Bool) : Except CodecError (List UInt8) := do
  if doRangeCheck then m.rangeCheck schemaVersion
  return m.body

def decode (actingVersion blockLength : Int) (doRangeCheck : Bool) : Decoder SnapshotMarker := do
  let typeId ← Decoder.int64
  let logPosition ← Decoder.int64
  let leadershipTermId ← Decoder.int64
  let index ← Decoder.int32
  let mark ← Decoder.int32
  let timeUnit ← if timeUnitSinceVersion ≤ actingVersion then Decoder.int32 else pure 0
  let appVersion ← if timeUnitSinceVersion ≤ actingVersion then Decoder.int32 else pure 0
  skipBlock actingVersion blockLength sbeBlockLength
  let m : SnapshotMarker :=
    ⟨typeId, logPosition, leadershipTermId, index, .ofInt mark, .ofInt timeUnit, appVersion⟩
  if doRangeCheck then checked (m.rangeCheck actingVersion)
  return m

end SnapshotMarker

/-! ## Client session -/

structure ClientSession where
  clusterSessionId : Int
  responseStreamId : Int
  responseChannel : List UInt8
  encodedPrincipal : List UInt8
deriving DecidableEq, Repr

namespace ClientSession

def sbeBlockLength : Int := 12

def templateId : Int := 102

def rangeCheck (c : ClientSession) : Except CodecError Unit := do
  int64Range "c.ClusterSessionId" c.clusterSessionId
  int32Range "c.ResponseStreamId" c.responseStreamId
  asciiCheck "c.ResponseChannel" 0 c.responseChannel

def body (c : ClientSession) : List UInt8 :=
  leBytes 8 c.clusterSessionId ++ (leBytes 4 c.responseStreamId ++
    ((leBytes 4 c.responseChannel.length ++ c.responseChannel) ++
      (leBytes 4 c.encodedPrincipal.length ++ c.encodedPrincipal)))

def encode (c : ClientSession) (doRangeCheck : Bool) : Except CodecError (List UInt8) := do
  if doRangeCheck then c.rangeCheck
  return c.body

def decode (actingVersion blockLength : Int) (doRangeCheck : Bool) : Decoder ClientSession := do
  let clusterSessionId ← Decoder.int64
  let responseStreamId ← Decoder.int32
  skipBlock actingVersion blockLength sbeBlockLength
  let responseChannel ← Decoder.varData
  let encodedPrincipal ← Decoder.varData
  let c : ClientSession := ⟨clusterSessionId, responseStreamId, responseChannel, encodedPrincipal⟩
  if doRangeCheck then checked c.rangeCheck
  return c

end ClientSession

/-! ## Packets -/

def snapshotMarkerPacket (rangeChecking : Bool) (m : SnapshotMarker) : Except CodecError (List UInt8) := do
  let header : MessageHeader := ⟨SnapshotMarker.sbeBlockLength, SnapshotMarker.templateId, schemaId, schemaVersion⟩
  return header.encode ++ (← m.encode rangeChecking)

def clientSessionPacket (rangeChecking : Bool) (c : ClientSession) : Except CodecError (List UInt8) := do
  let header : MessageHeader := ⟨ClientSession.sbeBlockLength, ClientSession.templateId, schemaId, schemaVersion⟩
  return header.encode ++ (← c.encode rangeChecking)

end AeronGo.Cluster.Codecs
