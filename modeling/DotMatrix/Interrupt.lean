/-!
# Interrupt requests

Five request lines share the low bits of the flag and enable registers. The
lowest line has priority, and each line has its own vector.
-/
namespace DotMatrix

inductive Interrupt where
  | vblank
  | stat
  | timer
  | serial
  | joypad
deriving DecidableEq, Repr

namespace Interrupt

def lines : UInt8 := 0x1F

def bit : Interrupt → UInt8
  | .vblank => 0x01
  | .stat => 0x02
  | .timer => 0x04
  | .serial => 0x08
  | .joypad => 0x10

def vector : Interrupt → UInt16
  | .vblank => 0x40
  | .stat => 0x48
  | .timer => 0x50
  | .serial => 0x58
  | .joypad => 0x60

/-- All lines, highest priority first. -/
def byPriority : List Interrupt := [.vblank, .stat, .timer, .serial, .joypad]

def next? (pending : UInt8) : Option Interrupt :=
  byPriority.find? fun i => pending &&& i.bit != 0

/-- The flag register as the processor reads it: the unused bits are one. -/
def readFlags (flags : UInt8) : UInt8 := flags ||| 0xE0

/-- The flags with the line requested if `now` holds. -/
def raise (i : Interrupt) (flags : UInt8) (now : Bool) : UInt8 :=
  if now then flags ||| i.bit else flags

end Interrupt

end DotMatrix
