import DotMatrix.Console
import DotMatrix.Memory

/-!
# The video unit

The state of the video unit: video memory, the object table, the registers, the
place in the frame, and the lines that are finished and wait for the host. The
names of the registers are those of the hardware.
-/
namespace DotMatrix

namespace Video

/-- The modes of a line, as the status register shows them. -/
inductive Mode where
  | hblank
  | vblank
  | scan
  | transfer
deriving DecidableEq, Repr, Inhabited

def Mode.code : Mode → UInt8
  | .hblank => 0
  | .vblank => 1
  | .scan => 2
  | .transfer => 3

def Mode.ofCode (code : Nat) : Mode :=
  match code % 4 with
  | 0 => .hblank
  | 1 => .vblank
  | 2 => .scan
  | _ => .transfer

/-- An object chosen for a line, by the screen position of its upper left corner. -/
structure Sprite where
  x : Int := 0
  y : Int := 0
  tile : UInt8 := 0
  flags : UInt8 := 0
  index : UInt8 := 0
deriving DecidableEq, Repr, Inhabited

/-- What the pixels of a line stand for. -/
inductive PixelFormat where
  /-- One of four shades, the lightest zero. -/
  | shade
  /-- Five bits each of blue, green and red. -/
  | color
deriving DecidableEq, Repr, Inhabited

structure Scanline where
  line : Nat
  format : PixelFormat
  pixels : Array UInt16
deriving DecidableEq, Repr, Inhabited

/-- What a line is drawn in: of each column its pixel, whether the tile of the backdrop
covers sprites, and whether the backdrop has colour zero. -/
structure LineBuffers where
  pixels : Vector UInt16 screenWidth := .replicate screenWidth 0
  priority : Vector Bool screenWidth := .replicate screenWidth false
  colorZero : Vector Bool screenWidth := .replicate screenWidth false
deriving DecidableEq, Repr, Inhabited

def bankSize : Nat := 0x2000
def objectCount : Nat := 40
def spritesPerLine : Nat := 10

def scanDots : Nat := 80

/-- Dots of the shortest and of the longest pixel transfer. -/
def minTransferDots : Nat := 172
def maxTransferDots : Nat := 289

def lastLine : Nat := linesPerFrame - 1

end Video

open Video in
structure Video where
  /-- The colour features are decoded: attributes, palettes, the second bank. -/
  cgb : Bool
  /-- Lines are delivered in colour. -/
  colorOutput : Bool
  vram0 : Memory bankSize := default
  vram1 : Memory bankSize := default
  /-- The second bank is the one on the bus. -/
  secondBank : Bool := false
  oam : Memory (4 * objectCount) := default
  lcdc : UInt8 := 0
  stat : UInt8 := 0
  scy : UInt8 := 0
  scx : UInt8 := 0
  ly : Nat := 0
  lyc : UInt8 := 0
  /-- The line and the compared line were equal at the last comparison. -/
  coincidence : Bool := false
  /-- The page last written to the object transfer register. -/
  dma : UInt8 := 0xFF
  bgp : UInt8 := 0
  obp0 : UInt8 := 0
  obp1 : UInt8 := 0
  wy : UInt8 := 0
  wx : UInt8 := 0
  /-- The line of the window that is drawn next. -/
  windowLine : UInt8 := 0
  /-- The window's line has been met in this frame. -/
  windowReached : Bool := false
  bgIndex : UInt8 := 0x40
  bgColors : Memory 64 := .fill 64 0xFF
  objIndex : UInt8 := 0x40
  objColors : Memory 64 := .fill 64 0xFF
  /-- Sprites have priority by their position and not by their place in the table. -/
  byPosition : Bool := !cgb
  mode : Mode := .hblank
  /-- Dots of the current mode that have passed. -/
  clock : Nat := 0
  /-- Dots of the pixel transfer on this line. -/
  transferDots : Nat := minTransferDots
  /-- The line to the interrupt controller, whose rising edge is a request. -/
  statLine : Bool := false
  /-- The sprites of this line in drawing order; slots behind the count are stale. -/
  slots : List Sprite := List.replicate spritesPerLine {}
  spriteCount : Nat := 0
  /-- The last frame in four shades. -/
  shades : Memory (screenWidth * screenHeight) := default
  /-- Frames completed, modulo the range of the counter. -/
  frames : UInt64 := 0
  /-- The last line that was drawn. No snapshot holds it. -/
  buffers : LineBuffers := {}
  /-- Lines that the host has not taken yet, oldest first. -/
  finished : Array Scanline := #[]
deriving Inhabited

namespace Video

def hasBit (register mask : UInt8) : Bool := register &&& mask != 0

def enabled (v : Video) : Bool := hasBit v.lcdc 0x80

def format (v : Video) : PixelFormat := if v.colorOutput then .color else .shade

def vramAccessible (v : Video) : Bool := !v.enabled || v.mode != .transfer

def oamAccessible (v : Video) : Bool :=
  !v.enabled || v.mode == .hblank || v.mode == .vblank

def bank (v : Video) (second : Bool) : Memory bankSize := if second then v.vram1 else v.vram0

def readVram (v : Video) (address : UInt16) : UInt8 :=
  (v.bank v.secondBank).get (address.toNat % bankSize)

def writeVram (v : Video) (address : UInt16) (value : UInt8) : Video :=
  let i := address.toNat % bankSize
  if v.secondBank then { v with vram1 := v.vram1.set i value }
  else { v with vram0 := v.vram0.set i value }

def takeFinished (v : Video) : Video × Array Scanline := ({ v with finished := #[] }, v.finished)

end Video

end DotMatrix
