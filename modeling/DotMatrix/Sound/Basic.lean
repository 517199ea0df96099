import DotMatrix.Audio.Ring
import DotMatrix.Console
import DotMatrix.Sound.Filter
import DotMatrix.Sound.Noise
import DotMatrix.Sound.Wave

/-!
# The sound unit

The state of the sound unit: four channels, the registers as written, the
sequencer that clocks lengths, sweep and envelopes, and the resampler that turns
dots into frames at the rate of the host.
-/
namespace DotMatrix

namespace Sound

def sequencerDots : Nat := 8192

/-- The steps of the sequencer, after which it starts over. -/
def sequencerSteps : Nat := 8

def minSampleRate : Nat := 8000
def maxSampleRate : Nat := 192000

/-- The first register and the number of registers below the power switch. -/
def firstRegister : Nat := 0xFF10
def registerCount : Nat := 0x16

/-- The resampler: a phase that moves by the sample rate per dot, and the sums of the
levels since the last frame. -/
structure Resampler where
  rate : Nat := minSampleRate
  phase : Nat := 0
  left : Int := 0
  right : Int := 0
  dots : Nat := 0
  leftFilter : Filter := {}
  rightFilter : Filter := {}
deriving DecidableEq, Repr, Inhabited

end Sound

open Sound in
structure Sound where
  swept : Swept := {}
  square : Square := {}
  wave : Wave := {}
  noise : Noise := {}
  waveRam : Memory 16 := default
  /-- The registers of the channels as last written. -/
  written : Memory registerCount := default
  volumes : UInt8 := 0
  panning : UInt8 := 0
  powered : Bool := false
  cgb : Bool
  step : Nat := 0
  countdown : Nat := sequencerDots
  resampler : Resampler
  /-- Frames that have not been taken yet, oldest first. -/
  frames : Array Audio.Frame := #[]
deriving Inhabited

namespace Sound

/-- A unit without power, for a host's sample rate. -/
def off (cgb : Bool) (sampleRate : Nat) : Sound where
  cgb
  resampler := { rate := min (max sampleRate minSampleRate) maxSampleRate }

def sampleRate (s : Sound) : Nat := s.resampler.rate

def takeFrames (s : Sound) : Sound × Array Audio.Frame := ({ s with frames := #[] }, s.frames)

end Sound

end DotMatrix
