import DotMatrix.Cartridge.Controller

/-!
# The cartridge slot

An inserted cartridge as the bus sees it: the ROM through two windows of 16 KiB,
the external RAM or the clock through a window of 8 KiB, and the battery image
that keeps RAM and clock while the power is off.
-/
namespace DotMatrix

structure Slot where
  rom : ByteArray
  romBanks : Nat
  ram : ByteArray
  controller : Controller
  /-- The board has a rumble motor. -/
  motor : Bool
  /-- RAM or clock were written since this was last asked. -/
  touched : Bool := false
deriving Inhabited

namespace Slot

def romBankSize : Nat := 0x4000
def ramBankSize : Nat := 0x2000

def ramWindow : Nat := 0xA000

/-- A cartridge as power comes on; `now` starts its clock. -/
def insert (c : Cartridge) (now : Nat) : Slot where
  rom := c.image
  romBanks := c.romBanks
  ram := ⟨Array.replicate c.ramSize 0⟩
  controller := .ofBoard c.board now
  motor := c.board.rumble

def lowBank (s : Slot) : Nat := s.controller.lowBank % s.romBanks

def highBank (s : Slot) : Nat := s.controller.highBank % s.romBanks

/-- A byte of a ROM bank; past the image all bits are one. -/
def romByte (s : Slot) (bank : Nat) (address : UInt16) : UInt8 :=
  let i := bank * romBankSize + address.toNat % romBankSize
  if h : i < s.rom.size then s.rom[i] else 0xFF

def readRom (s : Slot) (address : UInt16) : UInt8 :=
  s.romByte (if address < 0x4000 then s.lowBank else s.highBank) address

/-- A write into the ROM's address range programs the controller. -/
def writeRom (s : Slot) (address : UInt16) (value : UInt8) : Slot :=
  { s with controller := s.controller.program s.motor address value }

/-- The RAM cell behind an address, in a bank of RAM. Banks past the end of the RAM
repeat it. -/
def cell (s : Slot) (bank : Nat) (address : UInt16) : Nat :=
  (bank * ramBankSize + (address.toNat - ramWindow)) % s.ram.size

def halfByteCell (address : UInt16) : Nat := (address.toNat - ramWindow) % Cartridge.mbc2RamSize

def ramByte (s : Slot) (i : Nat) (absent : UInt8) : UInt8 :=
  if h : i < s.ram.size then s.ram[i] else absent

def setRamByte (s : Slot) (i : Nat) (value : UInt8) : Slot :=
  if h : i < s.ram.size then { s with ram := s.ram.set i value, touched := true } else s

def readRam (s : Slot) (address : UInt16) : UInt8 :=
  match s.controller.window with
  | .closed => 0xFF
  | .ram bank => s.ramByte (s.cell bank address) 0xFF
  | .halfBytes => 0xF0 ||| (s.ramByte (halfByteCell address) 0 &&& 0x0F)
  | .clock register =>
    match s.controller.clock? with
    | some clock => clock.read register
    | none => 0xFF

def writeRam (s : Slot) (address : UInt16) (value : UInt8) : Slot :=
  match s.controller.window with
  | .closed => s
  | .ram bank => s.setRamByte (s.cell bank address) value
  | .halfBytes => s.setRamByte (halfByteCell address) (value &&& 0x0F)
  | .clock register =>
    if s.controller.clock?.isSome then
      { s with controller := s.controller.mapClock (·.write register value), touched := true }
    else s

def hasClock (s : Slot) : Bool := s.controller.clock?.isSome

def advance (dots : Nat) (s : Slot) : Slot :=
  match s.controller.clock? with
  | some _ => { s with controller := s.controller.mapClock (·.advance dots) }
  | none => s

def setClock (s : Slot) (days hours minutes seconds now : Nat) : Slot × Bool :=
  if s.hasClock then
    ({ s with
        controller := s.controller.mapClock (·.setTime days hours minutes seconds now)
        touched := true },
      true)
  else (s, false)

/-- The registers as power comes on again. RAM and clock are kept. -/
def reset (c : Cartridge) (s : Slot) : Slot :=
  let fresh := insert c 0
  { fresh with
    ram := s.ram
    touched := s.touched
    controller :=
      match s.controller.clock? with
      | some clock => fresh.controller.mapClock fun _ => clock
      | none => fresh.controller }

def rumbles (s : Slot) : Bool := s.controller.rumbles

/-- Whether RAM or clock were written since this was last asked. -/
def takeTouched (s : Slot) : Slot × Bool := ({ s with touched := false }, s.touched)

/-- The battery image: the RAM, then the clock, whose anchor becomes `now`. -/
def batteryImage (s : Slot) (now : Nat) : Slot × Bytes :=
  let s := { s with controller := s.controller.mapClock fun c => { c with anchor := now } }
  let tail :=
    match s.controller.clock? with
    | some clock => Clock.tail.write clock
    | none => []
  (s, s.ram.data.toList ++ tail)

/-- Installs a battery image. A board with a clock takes it with or without the
clock's tail; a clock that comes with the image is caught up to `now`. -/
def loadBattery (s : Slot) (image : Bytes) (now : Nat) : Except Failure Slot :=
  let size := s.ram.size
  let tailSize := if s.hasClock then Clock.tailSize else 0
  if image.length = size ∨ image.length = size + tailSize then
    let tail := image.drop size
    .ok { s with
      ram := (image.take size).toByteArray
      controller := s.controller.mapClock fun c =>
        if image.length = size then { c with anchor := now }
        else (c.loadTail tail).catchUp now }
  else .error (.batterySize (size + tailSize) image.length)

def controllerLayout : Snapshot.Layout Slot :=
  .part (·.controller) (fun s v => { s with controller := v }) Controller.layout

def ramLayout : Snapshot.Layout Slot where
  write s := s.ram.data.toList
  read bytes s :=
    if bytes.length = s.ram.size then ({ s with ram := bytes.toByteArray }, .ok [])
    else (s, .error .externalRamSize)

end Slot

end DotMatrix
