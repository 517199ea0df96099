import DotMatrix.Interrupt
import DotMatrix.Snapshot.Layout

/-!
# The joypad

Eight buttons behind a register with four lines. Two selection bits, low when
chosen, connect the directions and the other buttons to the lines, and a
pressed button pulls its line low. A line that falls requests an interrupt.
-/
namespace DotMatrix

structure Joypad where
  select : UInt8 := 0x30
  /-- A set bit is a pressed button: right, left, up, down, A, B, select, start. -/
  pressed : UInt8 := 0
deriving DecidableEq, Repr, Inhabited

namespace Joypad

/-- The four lines; a low line is a pressed button of a chosen group. -/
def lines (j : Joypad) : UInt8 :=
  let directions := if j.select &&& 0x10 = 0 then j.pressed &&& 0x0F else 0
  let others := if j.select &&& 0x20 = 0 then j.pressed >>> 4 else 0
  0x0F &&& ~~~(directions ||| others)

def read (j : Joypad) : UInt8 := 0xC0 ||| j.select ||| j.lines

/-- Some line is high in `before` and low in `after`. -/
def falls (before after : Joypad) : Bool :=
  before.lines &&& ~~~after.lines &&& 0x0F != 0

def write (j : Joypad) (value flags : UInt8) : Joypad × UInt8 :=
  let j' := { j with select := value &&& 0x30 }
  (j', Interrupt.joypad.raise flags (falls j j'))

/-- A new set of pressed buttons, and the interrupt flags after it. -/
def press (j : Joypad) (buttons flags : UInt8) : Joypad × UInt8 :=
  let j' := { j with pressed := buttons }
  (j', Interrupt.joypad.raise flags (falls j j'))

def layout : Snapshot.Layout Joypad :=
  .fields [
    .byte (·.select) fun j v => { j with select := v &&& 0x30 },
    .byte (·.pressed) fun j v => { j with pressed := v }]

end Joypad

end DotMatrix
