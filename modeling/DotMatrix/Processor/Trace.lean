import DotMatrix.Processor.Core
import DotMatrix.Text.Hex

/-!
# Traces

The registers of the processor and the interrupt registers in one line of text.
-/
namespace DotMatrix.Core

def word (high low : UInt8) : String := Text.digits 4 (Processor.join high low).toNat

def mark (b : Bool) : String := if b then "1" else "0"

/-- The pairs AF, BC, DE and HL, the stack pointer, the program counter, a digit each for
served interrupts, halted and stopped, and the interrupt requests and enables. -/
def trace (c : Core) : String :=
  let p := c.cpu
  String.intercalate " " [
    word p.a p.f, word p.b p.c, word p.d p.e, word p.h p.l,
    Text.digits 4 p.sp.toNat, Text.digits 4 p.pc.toNat,
    mark p.ime ++ mark p.halted ++ mark p.stopped,
    Text.digits 2 c.bus.requests.toNat, Text.digits 2 c.bus.enables.toNat]

end DotMatrix.Core
