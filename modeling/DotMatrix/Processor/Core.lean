import DotMatrix.Bus.Write
import DotMatrix.Processor.Instruction

/-!
# The processor on its bus

What instructions are made of: bytes that follow the code, the stack, and operands.
-/
namespace DotMatrix

structure Core where
  cpu : Processor
  bus : Bus
deriving Inhabited

namespace Core

open Processor

def mapCpu (f : Processor → Processor) (c : Core) : Core := { c with cpu := f c.cpu }

def write (c : Core) (address : UInt16) (value : UInt8) : Core :=
  { c with bus := c.bus.write address value }

def fetch (c : Core) : Core × UInt8 :=
  let pc := c.cpu.pc
  let value := c.bus.read pc
  (c.mapCpu ({ · with pc := pc + 1 }), value)

/-- Two bytes at the program counter, the low one first. -/
def fetchWord (c : Core) : Core × UInt16 :=
  let (c, low) := c.fetch
  let (c, high) := c.fetch
  (c, join high low)

/-- Puts a word on the stack, the high byte first. -/
def push (c : Core) (v : UInt16) : Core :=
  let sp := c.cpu.sp
  let c := (c.write (sp - 1) (highByte v)).write (sp - 2) (lowByte v)
  c.mapCpu ({ · with sp := sp - 2 })

def pop (c : Core) : Core × UInt16 :=
  let sp := c.cpu.sp
  let low := c.bus.read sp
  let high := c.bus.read (sp + 1)
  (c.mapCpu ({ · with sp := sp + 2 }), join high low)

def get (c : Core) : Operand → UInt8
  | .b => c.cpu.b
  | .c => c.cpu.c
  | .d => c.cpu.d
  | .e => c.cpu.e
  | .h => c.cpu.h
  | .l => c.cpu.l
  | .memory => c.bus.read c.cpu.hl
  | .a => c.cpu.a

def set (c : Core) (target : Operand) (v : UInt8) : Core :=
  match target with
  | .b => c.mapCpu ({ · with b := v })
  | .c => c.mapCpu ({ · with c := v })
  | .d => c.mapCpu ({ · with d := v })
  | .e => c.mapCpu ({ · with e := v })
  | .h => c.mapCpu ({ · with h := v })
  | .l => c.mapCpu ({ · with l := v })
  | .memory =>
    let address := c.cpu.hl
    c.write address v
  | .a => c.mapCpu ({ · with a := v })

def getPair (c : Core) : Pair → UInt16
  | .bc => c.cpu.bc
  | .de => c.cpu.de
  | .hl => c.cpu.hl
  | .sp => c.cpu.sp

def setPair (c : Core) (target : Pair) (v : UInt16) : Core :=
  match target with
  | .bc => c.mapCpu (·.setBc v)
  | .de => c.mapCpu (·.setDe v)
  | .hl => c.mapCpu (·.setHl v)
  | .sp => c.mapCpu ({ · with sp := v })

def getSaved (c : Core) : Saved → UInt16
  | .bc => c.cpu.bc
  | .de => c.cpu.de
  | .hl => c.cpu.hl
  | .af => c.cpu.af

def setSaved (c : Core) (target : Saved) (v : UInt16) : Core :=
  match target with
  | .bc => c.mapCpu (·.setBc v)
  | .de => c.mapCpu (·.setDe v)
  | .hl => c.mapCpu (·.setHl v)
  | .af => c.mapCpu (·.setAf v)

def pointed (c : Core) : Pointer → UInt16
  | .bc => c.cpu.bc
  | .de => c.cpu.de
  | .hlUp => c.cpu.hl
  | .hlDown => c.cpu.hl

def movePointer (c : Core) : Pointer → Core
  | .bc => c
  | .de => c
  | .hlUp => c.mapCpu fun p => p.setHl (p.hl + 1)
  | .hlDown => c.mapCpu fun p => p.setHl (p.hl - 1)

/-- A condition on the flags; no condition holds always. -/
def holds (c : Core) : Option Condition → Bool
  | none => true
  | some .notZero => !c.cpu.zero
  | some .zero => c.cpu.zero
  | some .noCarry => !c.cpu.carry
  | some .carry => c.cpu.carry

end Core

end DotMatrix
