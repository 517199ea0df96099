/-!
# Countdowns

The frequency timers of the channels count down and start again at their
period. `expiries` and `left` tell at once what a number of dots makes of one.
-/
namespace DotMatrix.Sound.Countdown

/-- How often a countdown at `timer` runs out within `dots`. -/
def expiries (period timer dots : Nat) : Nat :=
  if dots < timer then 0 else 1 + (dots - timer) / period

/-- Where it stands after them. -/
def left (period timer dots : Nat) : Nat :=
  if dots < timer then timer - dots else period - (dots - timer) % period

end DotMatrix.Sound.Countdown
