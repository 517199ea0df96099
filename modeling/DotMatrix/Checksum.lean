/-!
# CRC-32

The reflected CRC-32 of the IEEE polynomial, one table look-up per byte.
-/
namespace DotMatrix.Checksum

def shiftBit (crc : UInt32) : UInt32 :=
  if crc &&& 1 = 1 then (crc >>> 1) ^^^ 0xEDB88320 else crc >>> 1

def table : Vector UInt32 256 :=
  .ofFn fun i => Nat.repeat shiftBit 8 (UInt32.ofNat i)

def step (crc : UInt32) (byte : UInt8) : UInt32 :=
  table[(crc.toUInt8 ^^^ byte).toFin] ^^^ (crc >>> 8)

def crc32 (bytes : ByteArray) : UInt32 :=
  ~~~ bytes.foldl step 0xFFFFFFFF

end DotMatrix.Checksum
