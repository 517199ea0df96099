import DotMatrix.Bus.Basic
import DotMatrix.Video.Registers

/-!
# Reading the bus

`readUnlocked` is the bus as the transfers see it, and `read` as the processor
does: parts of it are out of reach while the video unit or the object transfer
works on them.
-/
namespace DotMatrix.Bus

/-- A byte of the cartridge's ROM, or of the boot ROM that covers it. -/
def readRom (b : Bus) (address : UInt16) : UInt8 :=
  let covering? := if b.bootMapped then b.bootRom?.bind (·.read? address) else none
  covering?.getD (b.slot.readRom address)

/-- The blocks left of a running transfer, less one. -/
def readBlockTransfer (b : Bus) (address : UInt16) : UInt8 :=
  let t := b.blockTransfer
  if address ≠ 0xFF55 then 0xFF
  else if t.active then UInt8.ofNat ((t.blocks - 1) % 0x80)
  else if t.cancelled then 0x80
  else 0xFF

def readSpeed (b : Bus) : UInt8 :=
  0x7E ||| (if b.doubleSpeed then 0x80 else 0) ||| (if b.speedArmed then 0x01 else 0)

def readRegion (b : Bus) (region : Region) (address : UInt16) : UInt8 :=
  match region with
  | .rom => b.readRom address
  | .videoRam => b.video.readVram address
  | .cartridgeRam => b.slot.readRam address
  | .workRam offset => b.workRam.get (b.workCell offset)
  | .objects index => b.video.oam.get index
  | .joypad => b.joypad.read
  | .timer => b.timer.read address
  | .requests => Interrupt.readFlags b.requests
  | .sound => b.sound.read address
  | .video => b.video.read address
  | .speed => if b.cgb then b.readSpeed else 0xFF
  | .bootSwitch => 0xFF
  | .blockTransfer => if b.cgb then b.readBlockTransfer address else 0xFF
  | .workBank => if b.cgb then 0xF8 ||| UInt8.ofNat b.workBank else 0xFF
  | .highRam index => b.highRam.get index
  | .enables => b.enables
  | .nothing => 0xFF

/-- The byte at an address, whoever works on it. -/
def readUnlocked (b : Bus) (address : UInt16) : UInt8 :=
  b.readRegion (Region.ofRead address) address

def reachable (b : Bus) : Region → Bool
  | .videoRam => b.video.vramAccessible
  | .objects _ => b.video.oamAccessible
  | _ => true

/-- The byte at an address, as the processor sees it. During an object transfer it
sees the high RAM only. -/
def read (b : Bus) (address : UInt16) : UInt8 :=
  if b.objectsBusy && !(0xFF80 ≤ address && address ≤ 0xFFFE) then 0xFF
  else if b.reachable (Region.ofRead address) then b.readUnlocked address
  else 0xFF

end DotMatrix.Bus
