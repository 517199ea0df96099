import DotMatrix.Failure
import DotMatrix.SoftPatch.Image

/-!
# Patches with checksums

UPS and BPS patches share an envelope: a magic word in front, and at the end
the checksums of the source, of the target and of the patch itself. Any function to
32 bits can be the checksum; the patches in use have CRC-32.
-/
namespace DotMatrix.SoftPatch

structure Envelope where
  body : Bytes
  sourceSum : Nat
  targetSum : Nat
deriving DecidableEq, Repr

namespace Envelope

def footerSize : Nat := 12

/-- The largest image that a patch with checksums may produce. -/
def maxTargetSize : Nat := 0x1000000

section

variable (crc : ByteArray → UInt32)

def checksum (bytes : Bytes) : Nat := (crc bytes.toByteArray).toNat

def imageSum (image : Image) : Nat := (crc image).toNat

/-- The patch with its magic word and the three checksums. -/
def encode (magic : Bytes) (e : Envelope) : Bytes :=
  let sealed := magic ++ e.body ++ littleEndian 4 e.sourceSum ++ littleEndian 4 e.targetSum
  sealed ++ littleEndian 4 (checksum crc sealed)

/-- Opens a patch of the kind that the magic word names. -/
def decode (magic patch : Bytes) : Except PatchFault Envelope :=
  if patch.length < magic.length + footerSize ∨ patch.take magic.length ≠ magic then
    .error .missingHeader
  else
    let footer := patch.drop (patch.length - footerSize)
    if checksum crc (patch.take (patch.length - 4)) ≠ ofLittleEndian (footer.drop 8) then
      .error .patchChecksumMismatch
    else
      .ok {
        body := (patch.take (patch.length - footerSize)).drop magic.length
        sourceSum := ofLittleEndian (footer.take 4)
        targetSum := ofLittleEndian ((footer.drop 4).take 4) }

end

end Envelope

def require (ok : Bool) (fault : PatchFault) : Except PatchFault Unit :=
  if ok then .ok () else .error fault

end DotMatrix.SoftPatch
