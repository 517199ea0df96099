import DotMatrix.Text.Hex

/-!
# Failures

What can go wrong while a cartridge, a patch, a battery image or a snapshot is
accepted, and the one failure of a running machine. Each cause is a value, and
`Failure.message` is the only place that words them.
-/
namespace DotMatrix

/-- Why a cartridge header is refused. -/
inductive HeaderFault where
  | imageTooShort
  | checksumMismatch
  | unknownRomSize
  | unknownRamSize
deriving DecidableEq, Repr

inductive SnapshotFault where
  | missingTag
  | unsupportedVersion
  | missingSection
  | sectionOverrunsBlob
  | trailingData
  | sectionTooShort
  | sectionSizeMismatch
  | noSections
  | differentMachine
  | mapperMismatch
  | externalRamSize
  | positionOutOfRange
  | modeDoesNotMatchLine
  | spriteCountOutOfRange
  | resamplerOutOfRange
  | bootRomMissing
deriving DecidableEq, Repr

/-- Why a soft patch is refused. -/
inductive PatchFault where
  | unknownFormat
  | missingPatchHeader
  | missingHeader
  | truncatedRecord
  | patchChecksumMismatch
  | numberTooLarge
  | targetSizeOutOfRange
  | romSmallerThanSource
  | romSizeDiffers
  | differentRom
  | writePastTarget
  | copyOutOfBounds
  | patchedChecksumMismatch
deriving DecidableEq, Repr

/-- Everything the library refuses, and the failure that stops a machine. -/
inductive Failure where
  | unsupportedCartridge (kind : UInt8)
  | header (fault : HeaderFault)
  | illegalInstruction (opcode : UInt8) (address : UInt16)
  | batterySize (expected actual : Nat)
  | snapshot (fault : SnapshotFault)
  | bootRomSize (size : Nat)
  | patch (fault : PatchFault)
deriving DecidableEq, Repr

def HeaderFault.message : HeaderFault → String
  | .imageTooShort => "image shorter than the header"
  | .checksumMismatch => "header checksum mismatch"
  | .unknownRomSize => "unknown ROM size code"
  | .unknownRamSize => "unknown RAM size code"

def SnapshotFault.message : SnapshotFault → String
  | .missingTag => "missing GBST tag"
  | .unsupportedVersion => "unsupported version"
  | .missingSection => "missing section"
  | .sectionOverrunsBlob => "section overruns blob"
  | .trailingData => "trailing data"
  | .sectionTooShort => "section too short"
  | .sectionSizeMismatch => "section size mismatch"
  | .noSections => "no sections"
  | .differentMachine => "model or cartridge features differ"
  | .mapperMismatch => "mapper mismatch"
  | .externalRamSize => "external RAM size"
  | .positionOutOfRange => "PPU position out of range"
  | .modeDoesNotMatchLine => "PPU mode does not match LY"
  | .spriteCountOutOfRange => "sprite count out of range"
  | .resamplerOutOfRange => "resampler out of range"
  | .bootRomMissing => "state needs a boot ROM that is not loaded"

def PatchFault.message : PatchFault → String
  | .unknownFormat => "unknown patch format"
  | .missingPatchHeader => "missing PATCH header"
  | .missingHeader => "missing header"
  | .truncatedRecord => "truncated record"
  | .patchChecksumMismatch => "patch checksum mismatch"
  | .numberTooLarge => "number too large"
  | .targetSizeOutOfRange => "target size out of range"
  | .romSmallerThanSource => "ROM is smaller than the patch source"
  | .romSizeDiffers => "ROM size differs from the patch source"
  | .differentRom => "patch is for a different ROM"
  | .writePastTarget => "write past the target"
  | .copyOutOfBounds => "copy out of bounds"
  | .patchedChecksumMismatch => "patched ROM checksum mismatch"

def Failure.message : Failure → String
  | .unsupportedCartridge kind => "unsupported cartridge type " ++ Text.hex 2 kind.toNat
  | .header fault => "invalid cartridge header: " ++ fault.message
  | .illegalInstruction opcode address =>
    "illegal instruction " ++ Text.hex 2 opcode.toNat ++ " at " ++ Text.hex 4 address.toNat
  | .batterySize expected actual =>
    "save RAM is " ++ toString actual ++ " bytes, cartridge expects " ++ toString expected
  | .snapshot fault => "incompatible save state: " ++ fault.message
  | .bootRomSize size =>
    "boot ROM must be 256 (DMG) or 2304 (CGB) bytes, got " ++ toString size
  | .patch fault => "patch rejected: " ++ fault.message

end DotMatrix
