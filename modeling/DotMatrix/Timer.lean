import DotMatrix.Interrupt
import DotMatrix.Snapshot.Layout

/-!
# The timer

A 16-bit divider counts every cycle. One of its bits, chosen and enabled by
the control register, clocks a counter on its falling edge. A counter that
overflows stays zero for a few cycles and is then reloaded from the modulo
register, which requests an interrupt.
-/
namespace DotMatrix

structure Timer where
  /-- The free-running divider; its high byte is visible. -/
  div : UInt16 := 0
  counter : UInt8 := 0
  modulo : UInt8 := 0
  control : UInt8 := 0
  /-- The clock signal at the last look, for edge detection. -/
  signal : Bool := false
  /-- The modulo before a write in the current cycle. -/
  oldModulo : Option UInt8 := none
  /-- The value that waits to be loaded after an overflow. -/
  pending : Option UInt8 := none
  /-- Whole cycles before the one in which the pending value is loaded. -/
  delay : UInt8 := 0
  /-- The counter was reloaded in the current cycle. -/
  reloading : Bool := false
deriving DecidableEq, Repr, Inhabited

namespace Timer

/-- Cycles that a reload waits after the one of the overflow. -/
def reloadDelay : UInt8 := 3

def selectedBit (control : UInt8) : UInt16 :=
  match (control &&& 0x03).toNat with
  | 0 => 9
  | 1 => 3
  | 2 => 5
  | _ => 7

def clockSignal (div : UInt16) (control : UInt8) : Bool :=
  control &&& 0x04 != 0 && (div >>> selectedBit control) &&& 1 != 0

/-- One count. An overflow starts a reload, with the modulo of the cycle's start
where a write has replaced it. -/
def count (t : Timer) (oldModulo : Option UInt8) : Timer :=
  if t.counter = 0xFF then
    { t with
      counter := 0
      pending := some (oldModulo.getD t.modulo)
      delay := reloadDelay }
  else { t with counter := t.counter + 1 }

/-- Lets a pending reload come one cycle closer. -/
def advanceReload (t : Timer) : Timer :=
  match t.pending with
  | none => { t with reloading := false }
  | some value =>
    if t.delay = 0 then { t with counter := value, pending := none, reloading := true }
    else { t with delay := t.delay - 1, reloading := false }

/-- Looks at the signal and counts if it has fallen. -/
def clockEdge (t : Timer) (oldModulo : Option UInt8) : Timer :=
  let now := clockSignal t.div t.control
  let counted := if t.signal && !now then t.count oldModulo else t
  { counted with signal := now }

/-- Gives the divider a new value as one cycle passes. The reload lands in this
cycle exactly if the result is `reloading`. -/
def moveDivider (t : Timer) (div : UInt16) : Timer :=
  let t := t.advanceReload
  let oldModulo := t.oldModulo
  { t with oldModulo := none, div := div }.clockEdge oldModulo

def tick (t : Timer) : Timer := t.moveDivider (t.div + 1)

def resetDivider (t : Timer) (flags : UInt8) : Timer × UInt8 :=
  let t := t.moveDivider 0
  (t, Interrupt.timer.raise flags t.reloading)

def advance : Nat → Timer → UInt8 → Timer × UInt8
  | 0, t, flags => (t, flags)
  | n + 1, t, flags =>
    let t := t.tick
    advance n t (Interrupt.timer.raise flags t.reloading)

def read (t : Timer) (address : UInt16) : UInt8 :=
  match address.toNat with
  | 0xFF04 => (t.div >>> 8).toUInt8
  | 0xFF05 => t.counter
  | 0xFF06 => t.modulo
  | 0xFF07 => t.control ||| 0xF8
  | _ => 0xFF

/-- A write to the counter cancels a pending reload, unless the reload lands in
this very cycle. -/
def writeCounter (t : Timer) (value : UInt8) : Timer :=
  if t.reloading || (t.pending.isSome && t.delay == 0) then t
  else if t.pending.isSome then { t with counter := value, pending := none, delay := 0 }
  else { t with counter := value }

/-- A write to the modulo also reaches a reload that is pending or landing. -/
def writeModulo (t : Timer) (value : UInt8) : Timer :=
  { t with
    oldModulo := some t.modulo
    modulo := value
    pending := t.pending.map fun _ => value
    counter := if t.reloading then value else t.counter }

/-- A write to the control register counts once if it makes the signal fall. -/
def writeControl (t : Timer) (value : UInt8) : Timer :=
  let before := clockSignal t.div t.control
  let t := { t with control := value &&& 0x07 }
  let after := clockSignal t.div t.control
  let counted :=
    if before && !after then
      let oldModulo := t.oldModulo
      { t with oldModulo := none }.count oldModulo
    else t
  { counted with signal := after }

def write (t : Timer) (address : UInt16) (value flags : UInt8) : Timer × UInt8 :=
  match address.toNat with
  | 0xFF04 => t.resetDivider flags
  | 0xFF05 => (t.writeCounter value, flags)
  | 0xFF06 => (t.writeModulo value, flags)
  | 0xFF07 => (t.writeControl value, flags)
  | _ => (t, flags)

def layout : Snapshot.Layout Timer :=
  .fields [
    .half (·.div) fun t v => { t with div := v },
    .byte (·.counter) fun t v => { t with counter := v },
    .byte (·.modulo) fun t v => { t with modulo := v },
    .byte (·.control) fun t v => { t with control := v &&& 0x07 },
    .flag (·.signal) fun t v => { t with signal := v },
    .optional 1 (·.pending.map UInt8.toNat) fun t v =>
      { t with pending := v.map UInt8.ofNat },
    .byte (·.delay) fun t v => { t with delay := v },
    .flag (·.reloading) fun t v => { t with reloading := v },
    .adjust fun t => { t with oldModulo := none }]

end Timer

end DotMatrix
