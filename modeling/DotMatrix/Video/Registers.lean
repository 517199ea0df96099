import DotMatrix.Video.Advance

/-!
# The registers of the video unit
-/
namespace DotMatrix.Video

/-- The status register: the mode, the comparison and the chosen sources. -/
def readStat (v : Video) : UInt8 :=
  0x80 ||| (v.stat &&& 0x78) ||| (if v.coincidence then 0x04 else 0) ||| v.mode.code

def paletteEntry (index : UInt8) : Nat := index.toNat % 64

/-- An index register as it is kept: its unused bit is one. -/
def paletteIndex (value : UInt8) : UInt8 := (value &&& 0xBF) ||| 0x40

/-- An index register after a write through it; it may move on by itself. -/
def nextIndex (index : UInt8) : UInt8 :=
  if hasBit index 0x80 then 0xC0 ||| UInt8.ofNat ((paletteEntry index + 1) % 64) else index

def readColor (v : Video) (address : UInt16) : UInt8 :=
  match address.toNat with
  | 0xFF4F => if v.secondBank then 0xFF else 0xFE
  | 0xFF68 => v.bgIndex
  | 0xFF69 => v.bgColors.get (paletteEntry v.bgIndex)
  | 0xFF6A => v.objIndex
  | 0xFF6B => v.objColors.get (paletteEntry v.objIndex)
  | 0xFF6C => if v.byPosition then 0xFF else 0xFE
  | _ => 0xFF

def read (v : Video) (address : UInt16) : UInt8 :=
  match address.toNat with
  | 0xFF40 => v.lcdc
  | 0xFF41 => v.readStat
  | 0xFF42 => v.scy
  | 0xFF43 => v.scx
  | 0xFF44 => UInt8.ofNat v.ly
  | 0xFF45 => v.lyc
  | 0xFF46 => v.dma
  | 0xFF47 => v.bgp
  | 0xFF48 => v.obp0
  | 0xFF49 => v.obp1
  | 0xFF4A => v.wy
  | 0xFF4B => v.wx
  | _ => if v.cgb then v.readColor address else 0xFF

/-- The screen goes off: the frame starts again when it comes back. -/
def switchOff (v : Video) : Video :=
  { v with
    mode := .hblank
    clock := 0
    ly := 0
    windowLine := 0
    windowReached := false
    statLine := false }

/-- The screen comes on, at the top of a frame. -/
def switchOn (v : Video) (flags : UInt8) : Video × UInt8 :=
  { v with ly := 0, clock := 0 }.beginLine.compareLine.updateStat flags

def writeControl (v : Video) (value flags : UInt8) : Video × UInt8 :=
  let next := { v with lcdc := value }
  if v.enabled && !next.enabled then (next.switchOff, flags)
  else if !v.enabled && next.enabled then next.switchOn flags
  else (next, flags)

def writeColor (v : Video) (address : UInt16) (value : UInt8) : Video :=
  match address.toNat with
  | 0xFF4F => { v with secondBank := hasBit value 0x01 }
  | 0xFF68 => { v with bgIndex := paletteIndex value }
  | 0xFF69 =>
    { v with
      bgColors := v.bgColors.set (paletteEntry v.bgIndex) value
      bgIndex := nextIndex v.bgIndex }
  | 0xFF6A => { v with objIndex := paletteIndex value }
  | 0xFF6B =>
    { v with
      objColors := v.objColors.set (paletteEntry v.objIndex) value
      objIndex := nextIndex v.objIndex }
  | 0xFF6C => { v with byPosition := hasBit value 0x01 }
  | _ => v

/-- A write to a register, and the interrupt flags after it. The line register
cannot be written. -/
def write (v : Video) (address : UInt16) (value flags : UInt8) : Video × UInt8 :=
  match address.toNat with
  | 0xFF40 => v.writeControl value flags
  | 0xFF41 => { v with stat := (v.stat &&& 0x07) ||| (value &&& 0x78) }.updateStat flags
  | 0xFF42 => ({ v with scy := value }, flags)
  | 0xFF43 => ({ v with scx := value }, flags)
  | 0xFF45 => { v with lyc := value }.compareLine.updateStat flags
  | 0xFF46 => ({ v with dma := value }, flags)
  | 0xFF47 => ({ v with bgp := value }, flags)
  | 0xFF48 => ({ v with obp0 := value }, flags)
  | 0xFF49 => ({ v with obp1 := value }, flags)
  | 0xFF4A => ({ v with wy := value }, flags)
  | 0xFF4B => ({ v with wx := value }, flags)
  | _ => (if v.cgb then v.writeColor address value else v, flags)

end DotMatrix.Video
