import DotMatrix.Sound.Countdown
import DotMatrix.Sound.Envelope

/-!
# The noise channel

It plays the low bit of a feedback shift register of fifteen or seven bits.
-/
namespace DotMatrix.Sound

structure Noise where
  gate : Gate := {}
  envelope : Envelope := {}
  clockShift : Nat := 0
  divisor : Nat := 0
  /-- The register feeds back at seven bits. -/
  short : Bool := false
  register : UInt16 := 0
  timer : Nat := 0
deriving DecidableEq, Repr, Inhabited

namespace Noise

def period (n : Noise) : Nat :=
  (if n.divisor = 0 then 8 else 16 * n.divisor) <<< n.clockShift

/-- One shift of the register: the two lowest bits, added, come in at the top, and in
the short form at bit 6 as well. -/
def shift (short : Bool) (register : UInt16) : UInt16 :=
  let shifted := register / 2
  let feedback := (register ^^^ shifted) % 2
  let long := shifted ||| (0x4000 * feedback)
  if short then (long &&& 0xFFBF) ||| (0x40 * feedback) else long

def advance (dots : Nat) (n : Noise) : Noise :=
  if n.gate.on then
    { n with
      register := Nat.repeat (shift n.short) (Countdown.expiries n.period n.timer dots) n.register
      timer := Countdown.left n.period n.timer dots }
  else n

def output (n : Noise) : Nat :=
  if n.gate.on && n.register % 2 == 0 then n.envelope.volume else 0

def clockLength (n : Noise) : Noise := { n with gate := n.gate.clock }

def clockEnvelope (n : Noise) : Noise := { n with envelope := n.envelope.clock }

def maxLength : Nat := 64

def writeLength (n : Noise) (value : UInt8) : Noise :=
  { n with gate := { n.gate with length := maxLength - value.toNat % 64 } }

def writeEnvelope (n : Noise) (value : UInt8) : Noise :=
  { n with
    envelope := n.envelope.write value
    gate := n.gate.setDac (hasBit value 0xF8) }

def writeClock (n : Noise) (value : UInt8) : Noise :=
  { n with
    clockShift := value.toNat / 16
    short := hasBit value 0x08
    divisor := value.toNat % 8 }

def trigger (n : Noise) : Noise :=
  { n with
    gate := n.gate.trigger
    register := 0x7FFF
    timer := n.period
    envelope := n.envelope.trigger }

def writeControl (n : Noise) (late : Bool) (value : UInt8) : Noise :=
  let n := { n with gate := n.gate.control maxLength late value }
  if hasBit value 0x80 then n.trigger else n

def layout : Snapshot.Layout Noise :=
  .fields [
    .part (·.gate) (fun n g => { n with gate := g }) (Gate.layout maxLength),
    .part (·.envelope) (fun n e => { n with envelope := e }) Envelope.layout,
    .number 1 (·.clockShift) fun n v => { n with clockShift := v % 16 },
    .number 1 (·.divisor) fun n v => { n with divisor := v % 8 },
    .flag (·.short) fun n b => { n with short := b },
    .number 2 (·.register.toNat) fun n v => { n with register := UInt16.ofNat (v % 0x8000) },
    .number 4 (·.timer) fun n v => { n with timer := min v n.period }]

end Noise

end DotMatrix.Sound
