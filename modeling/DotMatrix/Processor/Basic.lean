import DotMatrix.Console

/-!
# The processor

The registers of the processor, and the states it can wait in. The flags are the
upper half of a register of their own.
-/
namespace DotMatrix

structure Processor where
  a : UInt8 := 0
  f : UInt8 := 0
  b : UInt8 := 0
  c : UInt8 := 0
  d : UInt8 := 0
  e : UInt8 := 0
  h : UInt8 := 0
  l : UInt8 := 0
  pc : UInt16 := 0
  sp : UInt16 := 0
  /-- Interrupts are served. -/
  ime : Bool := false
  /-- Waiting for an interrupt. -/
  halted : Bool := false
  /-- Waiting for a button. -/
  stopped : Bool := false
  /-- The next fetch does not move on. -/
  stuck : Bool := false
  /-- Instructions until interrupts are served, after they have been allowed. -/
  enableDelay : Nat := 0
  /-- Cycles of the step in progress, or of the last one. No snapshot holds them. -/
  cycles : Nat := 0
deriving DecidableEq, Repr, Inhabited

namespace Processor

def join (high low : UInt8) : UInt16 := 0x100 * high.toUInt16 + low.toUInt16

def highByte (v : UInt16) : UInt8 := (v / 0x100).toUInt8
def lowByte (v : UInt16) : UInt8 := v.toUInt8

def zeroFlag : UInt8 := 0x80
def subtractFlag : UInt8 := 0x40
def halfFlag : UInt8 := 0x20
def carryFlag : UInt8 := 0x10

def flags (zero subtract half carry : Bool) : UInt8 :=
  (if zero then zeroFlag else 0) ||| (if subtract then subtractFlag else 0) |||
    (if half then halfFlag else 0) ||| (if carry then carryFlag else 0)

def isSet (f flag : UInt8) : Bool := f &&& flag != 0

def zero (p : Processor) : Bool := isSet p.f zeroFlag
def carry (p : Processor) : Bool := isSet p.f carryFlag

def bc (p : Processor) : UInt16 := join p.b p.c
def de (p : Processor) : UInt16 := join p.d p.e
def hl (p : Processor) : UInt16 := join p.h p.l

/-- The flags without their lower half, which does not exist. -/
def af (p : Processor) : UInt16 := join p.a (p.f &&& 0xF0)

def setBc (p : Processor) (v : UInt16) : Processor := { p with b := highByte v, c := lowByte v }
def setDe (p : Processor) (v : UInt16) : Processor := { p with d := highByte v, e := lowByte v }
def setHl (p : Processor) (v : UInt16) : Processor := { p with h := highByte v, l := lowByte v }

def setAf (p : Processor) (v : UInt16) : Processor :=
  { p with a := highByte v, f := lowByte v &&& 0xF0 }

/-- The registers as the boot ROM of a model leaves them. -/
def boot : Model → Processor
  | .dmg => { a := 0x01, f := 0xB0, c := 0x13, e := 0xD8, h := 0x01, l := 0x4D
              pc := 0x0100, sp := 0xFFFE }
  | .cgb => { a := 0x11, f := 0x80, e := 0x08, l := 0x7C, pc := 0x0100, sp := 0xFFFE }

end Processor

end DotMatrix
