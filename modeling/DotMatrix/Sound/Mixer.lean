import DotMatrix.Sound.Basic

/-!
# The mixer

The outputs of the channels go through their converters, to one side or both, and
through the volume of the side. The resampler averages the result over the dots of
a frame.
-/
namespace DotMatrix.Sound

/-- What a converter makes of a channel's output: a level around zero, and zero when
it is off. -/
def level (dac : Bool) (output : Nat) : Int := if dac then 2 * output - 15 else 0

def levels (s : Sound) : List Int := [
  level s.swept.square.gate.dac s.swept.square.output,
  level s.square.gate.dac s.square.output,
  level s.wave.gate.dac s.wave.output,
  level s.noise.gate.dac s.noise.output]

/-- The levels that a side gets; the lowest bit of `chosen` is the first channel. -/
def panned : Nat → List Int → Int
  | _, [] => 0
  | chosen, level :: rest =>
    (if chosen % 2 = 1 then level else 0) + panned (chosen / 2) rest

/-- The weight of a level at the lowest volume. -/
def unitGain : Int := 32

def side (chosen volume : Nat) (levels : List Int) : Int :=
  panned chosen levels * (volume % 8 + 1) * unitGain

def maxLevel : Int := 4 * 15 * 8 * unitGain

def mix (s : Sound) : Int × Int :=
  if s.powered then
    let levels := s.levels
    let chosen := s.panning.toNat
    let volume := s.volumes.toNat
    (side (chosen / 16) (volume / 16) levels, side chosen volume levels)
  else (0, 0)

namespace Resampler

def untilFrame (r : Resampler) : Nat := (clockRate - r.phase + (r.rate - 1)) / r.rate

def mean (sum : Int) (dots : Nat) : Int16 := .ofInt (sum.tdiv (max dots 1))

def emit (r : Resampler) : Resampler × Audio.Frame :=
  let (leftFilter, left) := r.leftFilter.pass (mean r.left r.dots)
  let (rightFilter, right) := r.rightFilter.pass (mean r.right r.dots)
  ({ r with
      phase := r.phase - clockRate
      left := 0
      right := 0
      dots := 0
      leftFilter
      rightFilter },
    ⟨left, right⟩)

/-- A number of dots at two levels; a frame if one is complete. -/
def advance (dots : Nat) (levels : Int × Int) (r : Resampler) : Resampler × Option Audio.Frame :=
  let r := { r with
    phase := r.phase + dots * r.rate
    left := r.left + levels.1 * dots
    right := r.right + levels.2 * dots
    dots := r.dots + dots }
  if clockRate ≤ r.phase then
    let (r, frame) := r.emit
    (r, some frame)
  else (r, none)

end Resampler

end DotMatrix.Sound
