import DotMatrix.Cartridge.BootRom
import DotMatrix.Cartridge.Slot
import DotMatrix.Joypad
import DotMatrix.Sound.Registers
import DotMatrix.Timer
import DotMatrix.Video.Palette

/-!
# The bus

The state of all that hangs on the bus, and the decoding of addresses. An address
names a `Region`, and reading and writing have a table each to find it by.
-/
namespace DotMatrix

namespace Bus

def workRamSize : Nat := 0x8000
def highRamSize : Nat := 0x7F

/-- A transfer into video memory, in blocks of sixteen bytes. -/
structure BlockTransfer where
  source : UInt16 := 0
  /-- An address in video memory. -/
  target : UInt16 := 0x8000
  blocks : Nat := 0
  /-- One block moves at each horizontal blank. -/
  paced : Bool := false
  active : Bool := false
  /-- The last transfer was cancelled by a write. -/
  cancelled : Bool := false
deriving DecidableEq, Repr, Inhabited

structure ObjectTransfer where
  /-- The page that is being copied, as the address of its first byte. -/
  source : UInt16 := 0
  /-- Cycles left. -/
  remaining : Nat := 0
  /-- The page that is copied when the start delay has passed. -/
  pending? : Option UInt16 := none
  /-- Cycles of the start delay left. -/
  delay : Nat := 0
deriving DecidableEq, Repr, Inhabited

/-- What an address names. -/
inductive Region where
  | rom
  | videoRam
  | cartridgeRam
  | workRam (offset : Nat)
  | objects (index : Nat)
  | joypad
  | timer
  | requests
  | sound
  | video
  | speed
  | bootSwitch
  | blockTransfer
  | workBank
  | highRam (index : Nat)
  | enables
  | nothing
deriving DecidableEq, Repr, Inhabited

namespace Region

/-- Where a read goes. Work RAM appears twice: the addresses from 0xE000 repeat the ones
from 0xC000. -/
def ofRead (address : UInt16) : Region :=
  let a := address.toNat
  if a ≤ 0x7FFF then .rom
  else if a ≤ 0x9FFF then .videoRam
  else if a ≤ 0xBFFF then .cartridgeRam
  else if a ≤ 0xCFFF then .workRam (a - 0xC000)
  else if a ≤ 0xDFFF then .workRam (0x1000 + (a - 0xD000))
  else if a ≤ 0xEFFF then .workRam (a - 0xE000)
  else if a ≤ 0xFDFF then .workRam (0x1000 + (a - 0xF000))
  else if a ≤ 0xFE9F then .objects (a - 0xFE00)
  else if a ≤ 0xFEFF then .nothing
  else if a = 0xFF00 then .joypad
  else if 0xFF04 ≤ a ∧ a ≤ 0xFF07 then .timer
  else if a = 0xFF0F then .requests
  else if 0xFF10 ≤ a ∧ a ≤ 0xFF3F then .sound
  else if 0xFF40 ≤ a ∧ a ≤ 0xFF4B ∨ a = 0xFF4F ∨ 0xFF68 ≤ a ∧ a ≤ 0xFF6C then .video
  else if a = 0xFF4D then .speed
  else if 0xFF51 ≤ a ∧ a ≤ 0xFF55 then .blockTransfer
  else if a = 0xFF70 then .workBank
  else if 0xFF80 ≤ a ∧ a ≤ 0xFFFE then .highRam (a - 0xFF80)
  else if a = 0xFFFF then .enables
  else .nothing

def ofWrite (address : UInt16) : Region :=
  let a := address.toNat
  if a ≤ 0x7FFF then .rom
  else if a ≤ 0x9FFF then .videoRam
  else if a ≤ 0xBFFF then .cartridgeRam
  else if a ≤ 0xCFFF then .workRam (a - 0xC000)
  else if a ≤ 0xDFFF then .workRam (0x1000 + (a - 0xD000))
  else if a ≤ 0xEFFF then .workRam (a - 0xE000)
  else if a ≤ 0xFDFF then .workRam (0x1000 + (a - 0xF000))
  else if a ≤ 0xFE9F then .objects (a - 0xFE00)
  else if a ≤ 0xFEFF then .nothing
  else if a = 0xFF00 then .joypad
  else if 0xFF04 ≤ a ∧ a ≤ 0xFF07 then .timer
  else if a = 0xFF0F then .requests
  else if 0xFF10 ≤ a ∧ a ≤ 0xFF3F then .sound
  else if a = 0xFF40 ∨ a = 0xFF46 then .video
  else if 0xFF41 ≤ a ∧ a ≤ 0xFF4B ∨ a = 0xFF4F ∨ 0xFF68 ≤ a ∧ a ≤ 0xFF6C then .video
  else if a = 0xFF4D then .speed
  else if a = 0xFF50 then .bootSwitch
  else if 0xFF51 ≤ a ∧ a ≤ 0xFF55 then .blockTransfer
  else if a = 0xFF70 then .workBank
  else if 0xFF80 ≤ a ∧ a ≤ 0xFFFE then .highRam (a - 0xFF80)
  else if a = 0xFFFF then .enables
  else .nothing

end Region

end Bus

open Bus in
structure Bus where
  model : Model
  /-- The colour registers and banks are decoded. -/
  cgb : Bool
  slot : Slot
  bootRom? : Option BootRom := none
  /-- The boot ROM covers the start of the cartridge. -/
  bootMapped : Bool := false
  workRam : Memory workRamSize := default
  /-- The bank in the second window of work RAM, from 1 to 7. -/
  workBank : Nat := 1
  highRam : Memory highRamSize := default
  requests : UInt8 := 0
  enables : UInt8 := 0
  video : Video
  sound : Sound
  timer : Timer := {}
  joypad : Joypad := {}
  blockTransfer : BlockTransfer := {}
  objectTransfer : ObjectTransfer := {}
  /-- The processor runs two cycles per dot. -/
  doubleSpeed : Bool := false
  /-- The next stop of the processor changes the speed. -/
  speedArmed : Bool := false
  /-- Cycles that the processor owes for block transfers. -/
  stall : Nat := 0
deriving Inhabited

namespace Bus

/-- The bus of a console with a cartridge in it, before power. -/
def new (slot : Slot) (model : Model) (cgb : Bool) (sampleRate : Nat) : Bus where
  model
  cgb
  slot
  video := { cgb, colorOutput := model.isColor }
  sound := .off model.isColor sampleRate

def bootDivider : Model → UInt16
  | .dmg => 0xABCC
  | .cgb => 0x1EA0

/-- The state that the boot ROM leaves. -/
def boot (b : Bus) : Bus :=
  { b with
    timer := { div := bootDivider b.model }
    requests := Interrupt.vblank.bit
    video := b.video.boot
    sound := b.sound.boot
    bootMapped := false }

def mapBootRom (b : Bus) (rom : BootRom) : Bus :=
  { b with bootRom? := some rom, bootMapped := true }

/-- The cell of work RAM behind an offset into its windows: the first bank, then the
chosen one. -/
def workCell (b : Bus) (offset : Nat) : Nat :=
  if offset < 0x1000 then offset else b.workBank * 0x1000 + (offset - 0x1000)

def pending (b : Bus) : UInt8 := b.requests &&& b.enables &&& Interrupt.lines

/-- The object transfer holds the bus. -/
def objectsBusy (b : Bus) : Bool := 0 < b.objectTransfer.remaining

/-- A stop of the processor changes the speed. -/
def switchesSpeed (b : Bus) : Bool := b.cgb && b.speedArmed

def resetDivider (b : Bus) : Bus :=
  let (timer, requests) := b.timer.resetDivider b.requests
  { b with timer, requests }

/-- Changes the speed, which also restarts the divider. -/
def switchSpeed (b : Bus) : Bus :=
  { b with doubleSpeed := !b.doubleSpeed, speedArmed := false }.resetDivider

def press (b : Bus) (buttons : UInt8) : Bus :=
  let (joypad, requests) := b.joypad.press buttons b.requests
  { b with joypad, requests }

end Bus

end DotMatrix
