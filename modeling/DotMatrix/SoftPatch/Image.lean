import DotMatrix.Word

/-!
# Images under a patch

The bytes of a ROM while a patch rewrites it.
-/
namespace DotMatrix.SoftPatch

abbrev Image := ByteArray

namespace Image

/-- The image with zeros behind it up to `size`. -/
def growTo (image : Image) (size : Nat) : Image :=
  if size ≤ image.size then image
  else image ++ ⟨Array.replicate (size - image.size) 0⟩

def cutTo (image : Image) (size : Nat) : Image :=
  if size < image.size then image.extract 0 size else image

/-- The leading bytes of the image in an image of exactly `size` bytes. -/
def resize (image : Image) (size : Nat) : Image := (image.cutTo size).growTo size

/-- Replaces bytes from `offset` on; bytes past the end are dropped. -/
def overwrite (image : Image) : Nat → Bytes → Image
  | _, [] => image
  | offset, b :: rest =>
    if h : offset < image.size then overwrite (image.set offset b) (offset + 1) rest
    else image

end Image

end DotMatrix.SoftPatch
