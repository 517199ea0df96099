import DotMatrix.Sound.Mixer

/-!
# The passing of dots

The sound unit moves from event to event: the next frame of the resampler or the
next step of the sequencer. Between two events the mixed levels count as constant.
-/
namespace DotMatrix.Sound

def clockLengths (s : Sound) : Sound :=
  { s with
    swept := s.swept.mapSquare Square.clockLength
    square := s.square.clockLength
    wave := s.wave.clockLength
    noise := s.noise.clockLength }

/-- The registers that show the frequency of the first channel. -/
def lowFrequencyRegister : Nat := 3
def highFrequencyRegister : Nat := 4

/-- Clocks the sweep, whose frequency shows in the registers. -/
def clockSweep (s : Sound) : Sound :=
  let swept := s.swept.clockSweep
  let frequency := swept.square.frequency
  let high := (s.written.get highFrequencyRegister &&& 0xF8) ||| UInt8.ofNat (frequency / 256 % 8)
  { s with
    swept
    written :=
      (s.written.set lowFrequencyRegister (UInt8.ofNat frequency)).set highFrequencyRegister high }

def clockEnvelopes (s : Sound) : Sound :=
  { s with
    swept := s.swept.mapSquare Square.clockEnvelope
    square := s.square.clockEnvelope
    noise := s.noise.clockEnvelope }

/-- One step of the sequencer: lengths at every other step, the sweep at two of them,
the envelopes at the last. -/
def clockSequencer (s : Sound) : Sound :=
  let step := s.step
  let s := { s with step := (step + 1) % sequencerSteps, countdown := sequencerDots }
  let s := if step % 2 = 0 then s.clockLengths else s
  let s := if step = 2 ∨ step = 6 then s.clockSweep else s
  if step = 7 then s.clockEnvelopes else s

/-- The channels and the sequencer, for no more dots than the sequencer waits. -/
def advanceChannels (dots : Nat) (s : Sound) : Sound :=
  let s := { s with
    swept := s.swept.mapSquare (Square.advance dots)
    square := s.square.advance dots
    wave := s.wave.advance s.waveRam dots
    noise := s.noise.advance dots
    countdown := s.countdown - dots }
  if s.countdown = 0 then s.clockSequencer else s

def untilEvent (s : Sound) : Nat :=
  let frame := s.resampler.untilFrame
  max 1 (if s.powered then min frame s.countdown else frame)

/-- A number of dots, no more than there are until the next event. -/
def advanceWithin (dots : Nat) (s : Sound) : Sound :=
  let levels := s.mix
  let s := if s.powered then s.advanceChannels dots else s
  let (resampler, frame) := s.resampler.advance dots levels
  match frame with
  | some frame => { s with resampler, frames := s.frames.push frame }
  | none => { s with resampler }

def advance (dots : Nat) (s : Sound) : Sound :=
  if dots = 0 then s
  else
    let run := min dots s.untilEvent
    advance (dots - run) (s.advanceWithin run)
termination_by dots
decreasing_by
  have h : 1 ≤ s.untilEvent := Nat.le_max_left ..
  omega

end DotMatrix.Sound
