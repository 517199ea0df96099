import DotMatrix.Bus.Transfer

/-!
# Writing the bus
-/
namespace DotMatrix.Bus

/-- A write to a register of the video unit. A screen that goes off lets a paced transfer
run to its end, and the transfer register requests an object transfer. -/
def writeVideo (b : Bus) (address : UInt16) (value : UInt8) : Bus :=
  let on := b.video.enabled
  let (video, requests) := b.video.write address value b.requests
  let b := { b with video, requests }
  if on && !b.video.enabled then b.transferRest
  else if address = 0xFF46 then b.requestObjects value
  else b

/-- A bank number whose zero stands for one. -/
def workBankOf (value : UInt8) : Nat := max 1 (value.toNat % 8)

def writeRegion (b : Bus) (region : Region) (address : UInt16) (value : UInt8) : Bus :=
  match region with
  | .rom => { b with slot := b.slot.writeRom address value }
  | .videoRam => { b with video := b.video.writeVram address value }
  | .cartridgeRam => { b with slot := b.slot.writeRam address value }
  | .workRam offset =>
    let cell := b.workCell offset
    { b with workRam := b.workRam.set cell value }
  | .objects index => { b with video := { b.video with oam := b.video.oam.set index value } }
  | .joypad =>
    let (joypad, requests) := b.joypad.write value b.requests
    { b with joypad, requests }
  | .timer =>
    let (timer, requests) := b.timer.write address value b.requests
    { b with timer, requests }
  | .requests => { b with requests := value &&& Interrupt.lines }
  | .sound => { b with sound := b.sound.write address value }
  | .video => b.writeVideo address value
  | .speed => if b.cgb then { b with speedArmed := value &&& 0x01 != 0 } else b
  | .bootSwitch => if value = 0 then b else { b with bootMapped := false }
  | .blockTransfer => if b.cgb then b.writeBlockTransfer address value else b
  | .workBank => if b.cgb then { b with workBank := workBankOf value } else b
  | .highRam index => { b with highRam := b.highRam.set index value }
  | .enables => { b with enables := value &&& Interrupt.lines }
  | .nothing => b

/-- A write of the processor. During an object transfer it reaches the registers and the
high RAM only. -/
def write (b : Bus) (address : UInt16) (value : UInt8) : Bus :=
  let region := Region.ofWrite address
  if b.objectsBusy && address < 0xFF00 then b
  else if b.reachable region then b.writeRegion region address value
  else b

end DotMatrix.Bus
