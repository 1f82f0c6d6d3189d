import AeronGo.Image

/-!
# Fragment assemblers

`aeron/fragmentassembler.go` and `aeron/controlledfragmentassembler.go`: the handlers that put the
fragments of a message together, session by session, and give their delegate whole messages. The state
of a handler is the builders and the state of the delegate. A builder is the bytes it holds; a message
that was put together is given to the delegate as a buffer of its own, with the last fragment's header.
-/

namespace AeronGo

open Machine Util Atomic LogBuffer

/-- The header that goes with a message: the term buffer and the frame's offset in it. -/
structure Header where
  buffer : Buffer
  offset : Int

/-- `builderBySessionIdMap`. -/
abbrev Builders := Int → Option (List UInt8)

def Builders.set (builders : Builders) (sessionId : Int) (builder : List UInt8) : Builders :=
  fun j => if j = sessionId then some builder else builders j

/-- `MakeBuffer` of a builder's bytes. -/
def makeBuffer (bytes : List UInt8) : Buffer := ⟨write (fun _ => 0) 0 bytes, i32 bytes.length⟩

variable {δ : Type}

namespace FragmentAssembler

abbrev Delegate (δ : Type) := δ → Buffer → Int → Int → Header → Except Stop δ

/-- `OnFragment`. -/
def onFragment (delegate : Delegate δ) : FragmentHandler (Builders × δ) :=
  fun (builders, d) buffer offset length headerOffset => do
    let header : Header := ⟨buffer, headerOffset⟩
    let flags ← getFlags buffer headerOffset
    if flags &&& unfragmented = unfragmented then
      let d ← delegate d buffer offset length header
      return (builders, d)
    else
      let sessionId ← getSessionId buffer headerOffset
      if flags &&& beginFrag = beginFrag then
        let bytes ← buffer.writeBytes offset length
        return (builders.set sessionId bytes, d)
      else
        match builders sessionId with
        | none => return (builders, d)
        | some builder =>
          if builder.length = 0 then return (builders, d)
          else
            let bytes ← buffer.writeBytes offset length
            let builder := builder ++ bytes
            if flags &&& endFrag = endFrag then
              let d ← delegate d (makeBuffer builder) 0 (i32 builder.length) header
              return (builders.set sessionId [], d)
            else return (builders.set sessionId builder, d)

end FragmentAssembler

namespace ControlledFragmentAssembler

open Image (ControlledPollAction ControlledFragmentHandler)

/-- A controlled delegate, which like the handler can see the subscriber position. -/
abbrev Delegate (δ : Type) := δ → Int → Buffer → Int → Int → Header → Except Stop (ControlledPollAction × δ)

/-- `OnFragment`. -/
def onFragment (delegate : Delegate δ) : ControlledFragmentHandler (Builders × δ) :=
  fun (builders, d) subscriberPosition buffer offset length headerOffset => do
    let header : Header := ⟨buffer, headerOffset⟩
    let flags ← getFlags buffer headerOffset
    if flags &&& unfragmented = unfragmented then
      let (action, d) ← delegate d subscriberPosition buffer offset length header
      return (action, builders, d)
    else
      let sessionId ← getSessionId buffer headerOffset
      if flags &&& beginFrag = beginFrag then
        let bytes ← buffer.writeBytes offset length
        return (.continue, builders.set sessionId bytes, d)
      else
        match builders sessionId with
        | none => return (.continue, builders, d)
        | some builder =>
          let limit := builder.length
          if limit = 0 then return (.continue, builders, d)
          else
            let bytes ← buffer.writeBytes offset length
            let builder := builder ++ bytes
            if flags &&& endFrag = endFrag then
              let (action, d) ← delegate d subscriberPosition (makeBuffer builder) 0 (i32 builder.length) header
              -- an aborted fragment is read again: take its bytes out of the builder
              if action = .abort then return (action, builders.set sessionId (builder.take limit), d)
              else return (action, builders.set sessionId [], d)
            else return (.continue, builders.set sessionId builder, d)

end ControlledFragmentAssembler

end AeronGo
