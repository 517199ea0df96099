import DotMatrix.Bus.Transfer
import DotMatrix.Sound.Advance
import DotMatrix.Video.Advance

/-!
# The passing of cycles

All that hangs on the bus moves on by the cycles that the processor took.
-/
namespace DotMatrix.Bus

def dotsIn (b : Bus) (cycles : Nat) : Nat := if b.doubleSpeed then cycles / 2 else cycles

def advanceTimer (cycles : Nat) (b : Bus) : Bus :=
  let (timer, requests) := b.timer.advance cycles b.requests
  { b with timer, requests }

/-- The video unit, and with each horizontal blank a block of a paced transfer. -/
def advanceVideo (dots : Nat) (b : Bus) : Bus :=
  let run := b.video.advance dots b.requests
  Nat.repeat transferNext run.hblanks { b with video := run.video, requests := run.flags }

/-- A number of cycles, and the dots that they last. -/
def advance (cycles : Nat) (b : Bus) : Bus × Nat :=
  let dots := b.dotsIn cycles
  let b := (b.advanceTimer cycles).advanceVideo dots
  let b := { b with sound := b.sound.advance dots }.advanceObjects cycles
  ({ b with slot := b.slot.advance dots }, dots)

end DotMatrix.Bus
