import AeronGo.Machine.Slice

/-!
# The image list of a subscription

`addImage` and `removeImage` of `aeron/subscription.go` on the list of `aeron/imagelist.go`, over any images that have
a correlation id: the conductor knows an image by the id of its mapping, a poll has it with its log. The load and the
store of the list's pointer are one step.
-/

namespace AeronGo.ImageList

open Machine

variable {ι : Type}

/-- `addImage`: a new image is polled last. -/
def addImage (images : List ι) (image : ι) : List ι := images ++ [image]

/-- `removeImage`: the first image of that id is taken out, and the last one put in its place. -/
def removeImage (idOf : ι → Int) (images : List ι) (correlationID : Int) : Option ι × List ι :=
  Slice.removeFirst (idOf · = correlationID) images

end AeronGo.ImageList
