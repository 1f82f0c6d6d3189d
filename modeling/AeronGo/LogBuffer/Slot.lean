import AeronGo.LogBuffer.Frames

/-!
# What a term holds

A term is a row of slots: committed data frames, padding (of a term's end or an aborted claim), and
claims that are not committed yet. `Slot.At` says what each is in bytes, `Laid` that a row of slots
lies between two offsets. This is the appender's promise to the reader, and all that the reader is
shown to rely on.
-/

namespace AeronGo.LogBuffer

open Machine

inductive Slot where
  | data (flags : UInt8) (payload : List UInt8)
  | padding (frameLength : Int)
  | pending (frameLength : Int)
deriving DecidableEq, Repr

namespace Slot

def frameLength : Slot → Int
  | data _ payload => payload.length + 32
  | padding frameLength => frameLength
  | pending frameLength => frameLength

/-- The bytes a slot takes up: its frame, aligned. -/
def space (s : Slot) : Int := (s.frameLength + 31) / 32 * 32

/-- The slot carries a fragment to a reader. -/
def isData : Slot → Bool
  | data _ _ => true
  | _ => false

def isPending : Slot → Bool
  | pending _ => true
  | _ => false

/-- A slot in the bytes of a term. The length of a pending frame is negative, and its other header
fields are those of the data frame that it becomes when it is committed. -/
def At (sessionId : Int) (m : Memory) (offset : Int) : Slot → Prop
  | data flags payload => getInt32 m offset = payload.length + 32 ∧ getUInt16 m (offset + 6) = typeData ∧
      getUInt8 m (offset + 5) = flags ∧ getInt32 m (offset + 12) = sessionId ∧
      Machine.read m (offset + 32) payload.length = payload
  | padding frameLength => 32 ≤ frameLength ∧ getInt32 m offset = frameLength ∧
      getUInt16 m (offset + 6) = typePad
  | pending frameLength => 32 ≤ frameLength ∧ getInt32 m offset = -frameLength ∧
      getUInt16 m (offset + 6) = typeData ∧ getUInt8 m (offset + 5) = unfragmented ∧
      getInt32 m (offset + 12) = sessionId

end Slot

/-- A row of slots from one offset to another. -/
def Laid (sessionId : Int) (m : Memory) : Int → List Slot → Int → Prop
  | a, [], b => a = b
  | a, s :: rest, b => s.At sessionId m a ∧ Laid sessionId m (a + s.space) rest b

/-- The bytes that a row of slots takes up. -/
def totalSpace (slots : List Slot) : Int := (slots.map Slot.space).sum

/-! ## The slots of a message -/

/-- A message cut into payloads: the first fragment has the given flags, the last one also the end
flag. -/
def fragmentSlots (maxPayload : Int) : Nat → UInt8 → List UInt8 → List Slot
  | 0, _, _ => []
  | fuel + 1, flags, message =>
    if 0 < message.length then
      if message.length ≤ maxPayload then [.data (flags ||| endFrag) message]
      else .data flags (message.take maxPayload.toNat) ::
        fragmentSlots maxPayload fuel 0 (message.drop maxPayload.toNat)
    else []

/-- What an offered message looks like in the term. -/
def messageSlots (maxPayload : Int) (message : List UInt8) : List Slot :=
  if message.length ≤ maxPayload then [.data unfragmented message]
  else fragmentSlots maxPayload message.length beginFrag message

end AeronGo.LogBuffer
