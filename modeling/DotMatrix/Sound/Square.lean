import DotMatrix.Sound.Countdown
import DotMatrix.Sound.Envelope

/-!
# Square channels

A square channel steps through a duty pattern at a rate that its frequency sets.
On the first channel a sweep moves the frequency up or down.
-/
namespace DotMatrix.Sound

/-- The largest frequency; a sweep beyond it silences the channel. -/
def maxFrequency : Nat := 2047

def setLow (frequency : Nat) (value : UInt8) : Nat := frequency / 256 % 8 * 256 + value.toNat

def setHigh (frequency : Nat) (value : UInt8) : Nat := value.toNat % 8 * 256 + frequency % 256

structure Square where
  gate : Gate := {}
  duty : Nat := 0
  position : Nat := 0
  frequency : Nat := 0
  timer : Nat := 0
  envelope : Envelope := {}
deriving DecidableEq, Repr, Inhabited

namespace Square

/-- The places at which a duty pattern is high. -/
def dutyHigh (duty position : Nat) : Bool :=
  match duty with
  | 0 => position == 7
  | 1 => position == 0 || position == 7
  | 2 => position == 0 || 5 ≤ position
  | _ => 1 ≤ position && position ≤ 6

def period (s : Square) : Nat := (2048 - s.frequency) * 4

def advance (dots : Nat) (s : Square) : Square :=
  if s.gate.on then
    { s with
      position := (s.position + Countdown.expiries s.period s.timer dots) % 8
      timer := Countdown.left s.period s.timer dots }
  else s

def output (s : Square) : Nat :=
  if s.gate.on && dutyHigh s.duty s.position then s.envelope.volume else 0

def clockLength (s : Square) : Square := { s with gate := s.gate.clock }

def clockEnvelope (s : Square) : Square := { s with envelope := s.envelope.clock }

def maxLength : Nat := 64

def writeLength (s : Square) (value : UInt8) : Square :=
  { s with gate := { s.gate with length := maxLength - value.toNat % 64 } }

def writeDuty (s : Square) (value : UInt8) : Square :=
  { s.writeLength value with duty := value.toNat / 64 }

def writeEnvelope (s : Square) (value : UInt8) : Square :=
  { s with
    envelope := s.envelope.write value
    gate := s.gate.setDac (hasBit value 0xF8) }

def writeFrequency (s : Square) (value : UInt8) : Square :=
  { s with frequency := setLow s.frequency value }

def trigger (s : Square) : Square :=
  { s with
    gate := s.gate.trigger
    timer := s.period
    envelope := s.envelope.trigger }

/-- A write to the control register, which also holds the high bits of the frequency. -/
def writeControl (s : Square) (late : Bool) (value : UInt8) : Square :=
  let s := { s with
    frequency := setHigh s.frequency value
    gate := s.gate.control maxLength late value }
  if hasBit value 0x80 then s.trigger else s

def layout : Snapshot.Layout Square :=
  .fields [
    .part (·.gate) (fun s g => { s with gate := g }) (Gate.layout maxLength),
    .number 1 (·.duty) fun s n => { s with duty := n % 4 },
    .number 1 (·.position) fun s n => { s with position := n % 8 },
    .number 2 (·.frequency) fun s n => { s with frequency := n % 2048 },
    .number 4 (·.timer) fun s n => { s with timer := min n s.period },
    .part (·.envelope) (fun s e => { s with envelope := e }) Envelope.layout]

end Square

structure Sweep where
  /-- Clocks between two steps; zero counts like eight but does not step. -/
  period : Nat := 0
  falling : Bool := false
  shift : Nat := 0
  timer : Nat := 0
  /-- The frequency that the next step starts from. -/
  shadow : Nat := 0
  on : Bool := false
  /-- A falling step was computed since the last trigger. -/
  fell : Bool := false
deriving DecidableEq, Repr, Inhabited

namespace Sweep

def target (w : Sweep) : Nat :=
  let delta := w.shadow >>> w.shift
  if w.falling then w.shadow - delta else w.shadow + delta

/-- Computing a step leaves a mark if it falls. -/
def mark (w : Sweep) : Sweep := { w with fell := w.fell || w.falling }

def reload (w : Sweep) : Sweep := { w with timer := if w.period = 0 then 8 else w.period }

/-- A write to the sweep register silences the channel if it turns a sweep that has
fallen around. -/
def write (w : Sweep) (value : UInt8) : Sweep × Bool :=
  let falling := hasBit value 0x08
  ({ w with
      period := value.toNat / 16 % 8
      falling
      shift := value.toNat % 8 },
    w.falling && !falling && w.fell)

def layout : Snapshot.Layout Sweep :=
  .fields [
    .number 1 (·.period) fun w n => { w with period := n % 8 },
    .flag (·.falling) fun w b => { w with falling := b },
    .number 1 (·.shift) fun w n => { w with shift := n % 8 },
    .number 1 (·.timer) fun w n => { w with timer := n % 16 },
    .number 2 (·.shadow) fun w n => { w with shadow := n % 0x1000 },
    .flag (·.on) fun w b => { w with on := b },
    .flag (·.fell) fun w b => { w with fell := b }]

end Sweep

/-- The first channel: a square channel with a sweep. -/
structure Swept where
  square : Square := {}
  sweep : Sweep := {}
deriving DecidableEq, Repr, Inhabited

namespace Swept

/-- Silences the channel if the next step of the sweep would go too high. -/
def check (c : Swept) : Swept :=
  let gate := c.square.gate
  { c with
    square := { c.square with
      gate := { gate with on := gate.on && c.sweep.target ≤ maxFrequency } }
    sweep := c.sweep.mark }

def step (c : Swept) : Swept :=
  let frequency := c.sweep.target
  let checked := c.check
  if frequency ≤ maxFrequency ∧ c.sweep.shift ≠ 0 then
    { checked with
      square := { checked.square with frequency }
      sweep := { checked.sweep with shadow := frequency } }.check
  else checked

def clockSweep (c : Swept) : Swept :=
  if 1 < c.sweep.timer then { c with sweep := { c.sweep with timer := c.sweep.timer - 1 } }
  else
    let c := { c with sweep := c.sweep.reload }
    if c.sweep.on && c.sweep.period != 0 then c.step else c

def writeSweep (c : Swept) (value : UInt8) : Swept :=
  let (sweep, silence) := c.sweep.write value
  let gate := c.square.gate
  { square := { c.square with gate := { gate with on := gate.on && !silence } }, sweep }

def triggerSweep (c : Swept) : Swept :=
  let sweep := { c.sweep with
    shadow := c.square.frequency
    fell := false
    on := c.sweep.period != 0 || c.sweep.shift != 0 }.reload
  let c := { c with sweep }
  if c.sweep.shift ≠ 0 then c.check else c

def writeControl (c : Swept) (late : Bool) (value : UInt8) : Swept :=
  let c := { c with square := c.square.writeControl late value }
  if hasBit value 0x80 then c.triggerSweep else c

def mapSquare (f : Square → Square) (c : Swept) : Swept := { c with square := f c.square }

def layout : Snapshot.Layout Swept :=
  .fields [
    .part (·.square) (fun c s => { c with square := s }) Square.layout,
    .part (·.sweep) (fun c w => { c with sweep := w }) Sweep.layout]

end Swept

end DotMatrix.Sound
