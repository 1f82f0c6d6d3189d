import AeronGo.Image
import AeronGo.ImageList

/-!
# Subscriptions

`Poll`, `ControlledPoll`, `addImage` and `removeImage` of `aeron/subscription.go`. The list of images is
the one that a call loads; an image is its own state with its log. An index outside the list is a panic.
-/

namespace AeronGo

open Machine Atomic LogBuffer

/-- An image with its log, and the id that it is removed by. -/
structure LoggedImage where
  correlationID : Int
  params : LogParams
  termBuffers : Int → Buffer
  image : Image

namespace LoggedImage

variable {σ : Type}

def poll (handler : FragmentHandler σ) (x : LoggedImage) (fragmentLimit : Int) (st : σ) :
    Except Stop (Int × LoggedImage × σ) := do
  let (count, image, st) ← x.image.poll x.params x.termBuffers handler fragmentLimit st
  return (count, { x with image }, st)

def controlledPoll (handler : Image.ControlledFragmentHandler σ) (x : LoggedImage) (fragmentLimit : Int) (st : σ) :
    Except Stop (Int × LoggedImage × σ) := do
  let (count, image, st) ← x.image.controlledPoll x.params x.termBuffers handler fragmentLimit st
  return (count, { x with image }, st)

end LoggedImage

structure Subscription where
  images : List LoggedImage
  roundRobinIndex : Nat

namespace Subscription

variable {σ : Type}

/-- How one image is polled, with what is left of the limit. -/
abbrev PollImage (σ : Type) := LoggedImage → Int → σ → Except Stop (Int × LoggedImage × σ)

/-- A loop over the images: `count` of them from `i` on, while the limit is not reached. -/
def pollLoop (pollImage : PollImage σ) (fragmentLimit : Int) :
    Nat → Nat → Int → List LoggedImage → σ → Except Stop (Int × List LoggedImage × σ)
  | 0, _, fragmentsRead, img, st => .ok (fragmentsRead, img, st)
  | count + 1, i, fragmentsRead, img, st =>
    if fragmentsRead < fragmentLimit then
      match img[i]? with
      | none => .error .panic
      | some x => do
        let (newFrags, x, st) ← pollImage x (fragmentLimit - fragmentsRead) st
        pollLoop pollImage fragmentLimit count (i + 1) (fragmentsRead + newFrags) (img.set i x) st
    else .ok (fragmentsRead, img, st)

/-- What `Poll` and `ControlledPoll` do alike. -/
def pollImages (pollImage : PollImage σ) (sub : Subscription) (fragmentLimit : Int) (st : σ) :
    Except Stop (Int × Subscription × σ) :=
  let length := sub.images.length
  if 0 < length then do
    -- past the end of the list the index starts again, and is not advanced
    let startingIndex := if length ≤ sub.roundRobinIndex then 0 else sub.roundRobinIndex
    let roundRobinIndex := if length ≤ sub.roundRobinIndex then 0 else sub.roundRobinIndex + 1
    let (fragmentsRead, img, st) ← pollLoop pollImage fragmentLimit (length - startingIndex) startingIndex 0 sub.images st
    let (fragmentsRead, img, st) ← pollLoop pollImage fragmentLimit startingIndex 0 fragmentsRead img st
    return (fragmentsRead, ⟨img, roundRobinIndex⟩, st)
  else return (0, sub, st)

def poll (handler : FragmentHandler σ) : Subscription → Int → σ → Except Stop (Int × Subscription × σ) :=
  pollImages (LoggedImage.poll handler)

def controlledPoll (handler : Image.ControlledFragmentHandler σ) :
    Subscription → Int → σ → Except Stop (Int × Subscription × σ) :=
  pollImages (LoggedImage.controlledPoll handler)

def addImage (sub : Subscription) (image : LoggedImage) : Subscription :=
  { sub with images := ImageList.addImage sub.images image }

def removeImage (sub : Subscription) (correlationID : Int) : Option LoggedImage × Subscription :=
  let (image, images) := ImageList.removeImage (·.correlationID) sub.images correlationID
  (image, { sub with images := images })

end Subscription

end AeronGo
