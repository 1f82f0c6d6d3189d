import AeronGo.FragmentAssembler

/-!
# The log adapter's reassembly

`onFragment` of `cluster/bounded_log_adapter.go`. The adapter reads one session, so it has one builder, which is nil before
the first fragmented message; `onMessage` is a parameter here, called as the delegate of an assembler is.
-/

namespace AeronGo.BoundedLogAdapter

open Machine Util Atomic LogBuffer

variable {δ : Type}

def onFragment (onMessage : FragmentAssembler.Delegate δ) : FragmentHandler (Option (List UInt8) × δ) :=
  fun (builder, d) buffer offset length headerOffset => do
    let header : Header := ⟨buffer, headerOffset⟩
    let flags ← getFlags buffer headerOffset
    if flags &&& unfragmented = unfragmented then
      let d ← onMessage d buffer offset length header
      return (builder, d)
    else if flags &&& beginFrag = beginFrag then
      let bytes ← buffer.writeBytes offset length
      return (some bytes, d)
    else
      match builder with
      | none => return (none, d)
      | some builder =>
        if builder.length = 0 then return (some builder, d)
        else
          let bytes ← buffer.writeBytes offset length
          let builder := builder ++ bytes
          if flags &&& endFrag = endFrag then
            let d ← onMessage d (makeBuffer builder) 0 (i32 builder.length) header
            return (some [], d)
          else return (some builder, d)

end AeronGo.BoundedLogAdapter
