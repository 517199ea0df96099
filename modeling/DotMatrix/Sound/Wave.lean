import DotMatrix.Sound.Square

/-!
# The wave channel

It plays 32 samples of four bits from wave memory.
-/
namespace DotMatrix.Sound

structure Wave where
  gate : Gate := {}
  /-- Zero is silence; each step beyond one halves the sample. -/
  volume : Nat := 0
  position : Nat := 0
  /-- The sample as fetched. -/
  buffer : Nat := 0
  frequency : Nat := 0
  timer : Nat := 0
deriving DecidableEq, Repr, Inhabited

namespace Wave

def sampleCount : Nat := 32

def period (w : Wave) : Nat := (2048 - w.frequency) * 2

/-- A sample of wave memory, the high half of a byte first. -/
def sampleAt (ram : Memory 16) (position : Nat) : Nat :=
  let b := (ram.get (position / 2)).toNat
  if position % 2 = 0 then b / 16 else b % 16

def advance (ram : Memory 16) (dots : Nat) (w : Wave) : Wave :=
  if w.gate.on then
    let count := Countdown.expiries w.period w.timer dots
    let position := (w.position + count) % sampleCount
    { w with
      position
      buffer := if count = 0 then w.buffer else sampleAt ram position
      timer := Countdown.left w.period w.timer dots }
  else w

def output (w : Wave) : Nat :=
  if !w.gate.on || w.volume = 0 then 0 else w.buffer >>> (w.volume - 1)

def clockLength (w : Wave) : Wave := { w with gate := w.gate.clock }

def maxLength : Nat := 256

def writeLength (w : Wave) (value : UInt8) : Wave :=
  { w with gate := { w.gate with length := maxLength - value.toNat } }

def writeDac (w : Wave) (value : UInt8) : Wave :=
  { w with gate := w.gate.setDac (hasBit value 0x80) }

def writeVolume (w : Wave) (value : UInt8) : Wave := { w with volume := value.toNat / 32 % 4 }

def writeFrequency (w : Wave) (value : UInt8) : Wave :=
  { w with frequency := setLow w.frequency value }

/-- Dots that the first sample lasts longer. -/
def triggerDelay : Nat := 6

/-- A trigger starts over, but the sample played first is the one still in the buffer. -/
def trigger (w : Wave) : Wave :=
  { w with gate := w.gate.trigger, position := 0, timer := w.period + triggerDelay }

def writeControl (w : Wave) (late : Bool) (value : UInt8) : Wave :=
  let w := { w with
    frequency := setHigh w.frequency value
    gate := w.gate.control maxLength late value }
  if hasBit value 0x80 then w.trigger else w

def layout : Snapshot.Layout Wave :=
  .fields [
    .part (·.gate) (fun w g => { w with gate := g }) (Gate.layout maxLength),
    .number 1 (·.volume) fun w n => { w with volume := n % 4 },
    .number 1 (·.position) fun w n => { w with position := n % 32 },
    .number 1 (·.buffer) fun w n => { w with buffer := n % 16 },
    .number 2 (·.frequency) fun w n => { w with frequency := n % 2048 },
    .number 4 (·.timer) fun w n => { w with timer := min n (w.period + triggerDelay) }]

end Wave

end DotMatrix.Sound
