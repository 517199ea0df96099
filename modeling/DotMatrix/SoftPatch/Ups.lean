import DotMatrix.Checksum
import DotMatrix.SoftPatch.Envelope
import DotMatrix.SoftPatch.Number

/-!
# UPS patches

A UPS patch lists the differing stretches of two images: the distance to the
next stretch, then the exclusive-or of the two images up to a zero byte, which
stands for the first position that agrees again. `diff` writes such a patch and
`apply` applies one.
-/
namespace DotMatrix.SoftPatch

namespace Ups

def magic : Bytes := [0x55, 0x50, 0x53, 0x31]

/-- Where the patching stands: the image so far and the position in it. -/
structure State where
  image : Image
  position : Nat

/-- Applies one stretch up to its zero byte or the end of the body. -/
def applyStretch (s : State) : Bytes → Except PatchFault (State × Bytes)
  | [] => .ok (s, [])
  | b :: rest =>
    if b = 0 then .ok ({ s with position := s.position + 1 }, rest)
    else if h : s.position < s.image.size then
      applyStretch ⟨s.image.set s.position (s.image[s.position] ^^^ b), s.position + 1⟩ rest
    else .error .writePastTarget

theorem length_applyStretch_le {s s' : State} {bytes rest : Bytes}
    (h : applyStretch s bytes = .ok (s', rest)) : rest.length ≤ bytes.length := by
  induction bytes generalizing s with
  | nil =>
    cases h
    exact Nat.le_refl _
  | cons b tail ih =>
    simp only [applyStretch] at h
    split at h
    · cases h
      exact Nat.le_succ _
    · split at h
      · exact Nat.le_succ_of_le (ih h)
      · exact absurd h (by simp)

def applyStretches (s : State) (body : Bytes) : Except PatchFault State :=
  if body = [] then .ok s
  else
    match _distance : Number.read body with
    | .error fault => .error fault
    | .ok (distance, rest) =>
      match _stretch : applyStretch { s with position := s.position + distance } rest with
      | .error fault => .error fault
      | .ok (s, rest) => applyStretches s rest
termination_by body.length
decreasing_by
  have := Number.length_read _distance
  have := length_applyStretch_le _stretch
  omega

/-- The differing positions from `position` on, as the distance from `after` to each
stretch and its bytes. -/
def stretches (after position : Nat) (pending : Bytes) : Bytes → Bytes → Bytes
  | _, [] => if pending = [] then [] else pending ++ [0]
  | source, t :: target =>
    let b := source.headD 0 ^^^ t
    let source := source.tail
    if b = 0 then
      if pending = [] then stretches after (position + 1) [] source target
      else pending ++ [0] ++ stretches (position + 1) (position + 1) [] source target
    else if pending = [] then
      stretches after (position + 1) (Number.write (position - after) ++ [b]) source target
    else stretches after (position + 1) (pending ++ [b]) source target

def diff (crc : ByteArray → UInt32) (source target : Image) : Bytes :=
  Envelope.encode crc magic {
    body := Number.write source.size ++ Number.write target.size ++
      stretches 0 0 [] source.data.toList target.data.toList
    sourceSum := Envelope.imageSum crc source
    targetSum := Envelope.imageSum crc target }

/-- The image after a UPS patch. An image longer than the patch's source is taken
for an overdump, of which only the leading bytes are checked. -/
def apply (crc : ByteArray → UInt32) (image : Image) (patch : Bytes) :
    Except PatchFault Image := do
  let e ← Envelope.decode crc magic patch
  let (sourceSize, body) ← Number.read e.body
  let (targetSize, body) ← Number.read body
  require (targetSize ≤ Envelope.maxTargetSize) .targetSizeOutOfRange
  require (sourceSize ≤ image.size) .romSmallerThanSource
  require (Envelope.imageSum crc (image.extract 0 sourceSize) = e.sourceSum) .differentRom
  let s ← applyStretches ⟨image.resize targetSize, 0⟩ body
  require (Envelope.imageSum crc s.image = e.targetSum) .patchedChecksumMismatch
  return s.image

end Ups

def applyUps : Image → Bytes → Except PatchFault Image := Ups.apply Checksum.crc32

end DotMatrix.SoftPatch
