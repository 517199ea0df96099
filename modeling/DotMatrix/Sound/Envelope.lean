import DotMatrix.Sound.Gate

/-!
# Volume envelopes
-/
namespace DotMatrix.Sound

structure Envelope where
  /-- The volume after a trigger. -/
  initial : Nat := 0
  /-- Clocks between two steps; zero stands still. -/
  period : Nat := 0
  rising : Bool := false
  volume : Nat := 0
  timer : Nat := 0
deriving DecidableEq, Repr, Inhabited

namespace Envelope

def maxVolume : Nat := 15

/-- One step up or down, as far as the volume goes. -/
def step (e : Envelope) : Envelope :=
  if e.rising then { e with volume := if e.volume < maxVolume then e.volume + 1 else e.volume }
  else { e with volume := e.volume - 1 }

def clock (e : Envelope) : Envelope :=
  if e.period = 0 then e
  else if 1 < e.timer then { e with timer := e.timer - 1 }
  else { e with timer := e.period }.step

def write (e : Envelope) (value : UInt8) : Envelope :=
  { e with
    initial := value.toNat / 16
    period := value.toNat % 8
    rising := hasBit value 0x08 }

def trigger (e : Envelope) : Envelope := { e with volume := e.initial, timer := e.period }

def layout : Snapshot.Layout Envelope :=
  .fields [
    .number 1 (·.initial) fun e n => { e with initial := n % 16 },
    .number 1 (·.period) fun e n => { e with period := n % 8 },
    .flag (·.rising) fun e b => { e with rising := b },
    .number 1 (·.volume) fun e n => { e with volume := n % 16 },
    .number 1 (·.timer) fun e n => { e with timer := n % 8 }]

end Envelope

end DotMatrix.Sound
