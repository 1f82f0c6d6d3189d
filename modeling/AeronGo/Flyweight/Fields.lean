import AeronGo.Atomic.Buffer

/-!
# Fields of flyweights

`aeron/flyweight/fields.go`. A field is where it was wrapped: pointers into the memory under the buffer, so a store through
a field is not checked, and one past the end of the buffer goes to what lies there. The functions that change the memory
return the buffer. A Go string is its bytes.
-/

namespace AeronGo.Flyweight

open Machine Atomic Util

/-- The memory of a byte array. -/
def arrayMemory (bytes : List UInt8) : Memory := write (fun _ => 0) 0 bytes

structure Int32Field where
  offset : Int

namespace Int32Field

/-- `Wrap`: the field, and its length. -/
def wrap (buffer : Buffer) (offset : Int) : Except Stop (Int32Field × Int) := do
  boundsCheck (i32 offset) 4 buffer.length
  return (⟨offset⟩, 4)

end Int32Field

structure Int64Field where
  offset : Int

namespace Int64Field

def wrap (buffer : Buffer) (offset : Int) : Except Stop (Int64Field × Int) := do
  boundsCheck (i32 offset) 8 buffer.length
  return (⟨offset⟩, 8)

end Int64Field

structure StringField where
  lenOffset : Int
  dataOffset : Int

namespace StringField

/-- `Wrap`: the string that lies there must be in the buffer. -/
def wrap (buffer : Buffer) (offset : Int) (align : Bool) : Except Stop (StringField × Int) := do
  let off := if align then alignInt32 (i32 offset) 4 else i32 offset
  let offsetAdjustment := if align then off - offset else 0
  boundsCheck off 4 buffer.length
  let l := getInt32 buffer.bytes off
  boundsCheck (i32 (off + 4)) l buffer.length
  return (⟨off, i32 (off + 4)⟩, 4 + l + offsetAdjustment)

/-- `Get`; `make` panics on a negative length. -/
def get (fld : StringField) (buffer : Buffer) : Except Stop (List UInt8) :=
  let length := getInt32 buffer.bytes fld.lenOffset
  if length < 0 then .error .panic else .ok (read buffer.bytes fld.dataOffset length.toNat)

end StringField

/-- `LengthAndRawDataField`: where the length is, and a buffer over the data. -/
structure LengthAndRawDataField where
  lenOffset : Int
  dataOffset : Int
  dataCapacity : Int

namespace LengthAndRawDataField

variable (fld : LengthAndRawDataField)

def length (buffer : Buffer) : Int := getInt32 buffer.bytes fld.lenOffset

/-- `Wrap`. The data begins behind the length, and its buffer is as long as what is left before it. -/
def wrap (buffer : Buffer) (rawOffset : Int) : Except Stop (LengthAndRawDataField × Int) := do
  let offset := alignInt32 (i32 rawOffset) 4
  let offsetAdjustment := offset - rawOffset
  boundsCheck offset 4 buffer.length
  let length := getInt32 buffer.bytes offset
  boundsCheck (i32 (offset + 4)) length buffer.length
  return (⟨offset, i32 (offset + 4), i32 (buffer.length - offset)⟩, 4 + length + offsetAdjustment)

def copyBuffer (buffer source : Buffer) (offset length : Int) : Except Stop Buffer := do
  let bytes := put 4 buffer.bytes fld.lenOffset length
  boundsCheck 0 length fld.dataCapacity
  boundsCheck offset length source.length
  return { buffer with bytes := memcpy bytes fld.dataOffset source.bytes offset length }

/-- `CopyString`, by `PutBytesArray`; it takes the address of the first byte. -/
def copyString (buffer : Buffer) (data : List UInt8) : Except Stop Buffer := do
  let length := i32 data.length
  let bytes := put 4 buffer.bytes fld.lenOffset length
  boundsCheck 0 length fld.dataCapacity
  boundsCheck 0 length (i32 data.length)
  if data = [] then .error .panic
  else return { buffer with bytes := memcpy bytes fld.dataOffset (arrayMemory data) 0 length }

/-- `GetAsASCII`, by `GetBytes` into an array of the length. -/
def getAsASCII (buffer : Buffer) : Except Stop (List UInt8) :=
  let length := fld.length buffer
  if length < 0 then .error .panic
  else do
    boundsCheck 0 length fld.dataCapacity
    return read buffer.bytes fld.dataOffset length.toNat

end LengthAndRawDataField

end AeronGo.Flyweight
