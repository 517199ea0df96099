import DotMatrix.Snapshot.Layout

/-!
# Channel gates

What all four channels have in common: a converter that can be off, and a length
counter that silences the channel when it runs out.
-/
namespace DotMatrix.Sound

def hasBit (register mask : UInt8) : Bool := register &&& mask != 0

structure Gate where
  on : Bool := false
  dac : Bool := false
  /-- Clocks until the channel goes off. -/
  length : Nat := 0
  lengthEnabled : Bool := false
deriving DecidableEq, Repr, Inhabited

namespace Gate

def clock (g : Gate) : Gate :=
  if g.lengthEnabled ∧ 0 < g.length then
    { g with length := g.length - 1, on := g.on && g.length != 1 }
  else g

/-- Switches the converter; without it the channel cannot be on. -/
def setDac (g : Gate) (dac : Bool) : Gate := { g with dac, on := g.on && dac }

/-- The part of a write to a control register that concerns the length. In the half
of the sequencer that will not clock lengths, enabling the counter clocks it at
once, and a counter that a trigger refills to `full` misses one clock. -/
def control (g : Gate) (full : Nat) (late : Bool) (value : UInt8) : Gate :=
  let enable := hasBit value 0x40
  let extra := !g.lengthEnabled && enable && late
  let g := { g with lengthEnabled := enable }
  let g := if extra then g.clock else g
  if hasBit value 0x80 && g.length == 0 then
    { g with length := if enable && late then full - 1 else full }
  else g

/-- A trigger puts the channel on if its converter is. -/
def trigger (g : Gate) : Gate := { g with on := g.dac }

def layout (full : Nat) : Snapshot.Layout Gate :=
  .fields [
    .flag (·.on) fun g b => { g with on := b },
    .flag (·.dac) fun g b => { g with dac := b },
    .number 2 (·.length) fun g n => { g with length := min n full },
    .flag (·.lengthEnabled) fun g b => { g with lengthEnabled := b }]

end Gate

end DotMatrix.Sound
