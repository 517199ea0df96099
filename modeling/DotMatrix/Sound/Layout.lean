import DotMatrix.Snapshot.Layout
import DotMatrix.Sound.Mixer

/-!
# The sound unit in a snapshot

The phase of the resampler only has a meaning at the rate at which it was taken;
frames that have not been taken are not part of a snapshot.
-/
namespace DotMatrix.Sound

def maxFrameDots : Nat := (clockRate + (minSampleRate - 1)) / minSampleRate

/-- A signed number as it stands in 64 bits. -/
def stored (n : Int) : Nat := (Int64.ofInt n).toUInt64.toNat

def signed (n : Nat) : Int := (Int64.ofNat n).toInt

def Filter.layout : Snapshot.Layout Filter :=
  .fields [
    .number 4 (·.input.toNat) fun f n => { f with input := UInt32.ofNat n },
    .number 4 (·.output.toNat) fun f n => { f with output := UInt32.ofNat n }]

namespace Resampler

/-- Keeps a sum within what its dots can have added up to. -/
def bound (r : Resampler) (sum : Int) : Int :=
  let limit := r.dots * maxLevel
  max (-limit) (min limit sum)

def layout : Snapshot.Layout Resampler :=
  .fields [
    .number 4 (·.phase) fun r n => { r with phase := n % clockRate },
    .number 8 (stored ·.left) fun r n => { r with left := signed n },
    .number 8 (stored ·.right) fun r n => { r with right := signed n },
    .number 4 (·.dots) fun r n => { r with dots := n },
    .require (·.dots ≤ maxFrameDots) .resamplerOutOfRange,
    .adjust fun r => { r with left := r.bound r.left, right := r.bound r.right },
    .part (·.leftFilter) (fun r f => { r with leftFilter := f }) Filter.layout,
    .part (·.rightFilter) (fun r f => { r with rightFilter := f }) Filter.layout]

end Resampler

def layout : Snapshot.Layout Sound :=
  .fields [
    .part (·.swept) (fun s c => { s with swept := c }) Swept.layout,
    .part (·.square) (fun s c => { s with square := c }) Square.layout,
    .part (·.wave) (fun s c => { s with wave := c }) Wave.layout,
    .part (·.noise) (fun s c => { s with noise := c }) Noise.layout,
    .block (·.waveRam) fun s m => { s with waveRam := m },
    .block (·.written) fun s m => { s with written := m },
    .byte (·.volumes) fun s b => { s with volumes := b },
    .byte (·.panning) fun s b => { s with panning := b },
    .flag (·.powered) fun s b => { s with powered := b },
    .number 1 (·.step) fun s n => { s with step := n % sequencerSteps },
    .number 4 (·.countdown) fun s n => { s with countdown := min (max n 1) sequencerDots },
    .part (·.resampler) (fun s r => { s with resampler := r }) Resampler.layout,
    .adjust fun s => { s with frames := #[] }]

end DotMatrix.Sound
