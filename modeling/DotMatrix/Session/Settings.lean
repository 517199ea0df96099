import DotMatrix.Cartridge.BootRom
import DotMatrix.Console

/-!
# Session settings
-/
namespace DotMatrix

structure Settings where
  model : Model := .dmg
  /-- The host's sample rate, in samples per second. -/
  sampleRate : Nat := 44100
  /-- The latency that the audio ring has to absorb, in milliseconds. -/
  audioLatency : Nat := 100
  /-- The most frames that one tick may run: the bits of a single-precision number. -/
  maxCatchUp : UInt32 := 0x3FC00000
  /-- Frames without a write to cartridge RAM before a changed battery image is due. -/
  idleSaveFrames : Nat := 180
  /-- Without a boot ROM a machine starts in the state that one leaves behind. -/
  bootRom? : Option BootRom := none
deriving Inhabited

namespace Settings

/-- Frames that the audio ring holds: twice the latency, but never less than two
video frames of audio. The product is taken in 64 bits. -/
def audioCapacity (s : Settings) : Nat :=
  let latency := s.sampleRate * s.audioLatency * 2 % 0x10000000000000000 / 1000
  let videoFrame := (s.sampleRate + 59) / 60
  max latency (2 * videoFrame)

/-- The bits of the single-precision infinity. The bits of what is no number and of what is
negative are larger. -/
def infinity : Nat := 0x7F800000

/-- The most dots that one tick may run: the whole dots in so many frames, as far as 32 bits
hold them. Less than nothing is nothing, and so is what is no number. -/
def ceiling (s : Settings) : Nat :=
  let bits := s.maxCatchUp.toNat
  let exponent := bits / 0x800000
  let significand := if exponent = 0 then bits else 0x800000 + bits % 0x800000
  if infinity < bits then 0
  else min 0xFFFFFFFF (((significand * dotsPerFrame) <<< max exponent 1) >>> 150)

/-- The dots of a stretch of host time, in seconds, cut to the ceiling. Less than nothing is
nothing. -/
def budget (s : Settings) (seconds : Float) : Nat :=
  min (seconds * clockRate.toFloat).round.toUInt32.toNat s.ceiling

end Settings

end DotMatrix
