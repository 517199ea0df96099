import DotMatrix.Video.Palette

/-!
# Tiles

The background and the window are maps of tiles. A pixel of such a map is a
colour number with the palette and the priority of its tile.
-/
namespace DotMatrix.Video

structure TilePixel where
  color : Nat := 0
  palette : Nat := 0
  /-- The tile covers sprites. -/
  priority : Bool := false
deriving DecidableEq, Repr, Inhabited

def bitOf (b : UInt8) (k : Nat) : Nat := (b.toNat >>> k) % 2

/-- The colour number in column `k` from the right of a row of two bytes. -/
def rowColor (low high : UInt8) (k : Nat) : Nat := 2 * bitOf high k + bitOf low k

def mapBase (second : Bool) : Nat := if second then 0x1C00 else 0x1800

def mapIndex (base x y : Nat) : Nat := base + y / 8 * 32 + x / 8

/-- Where the data of a background tile begins. The tiles count from the start of
video memory, or as signed numbers around the middle. -/
def tileBase (v : Video) (tile : UInt8) : Nat :=
  if hasBit v.lcdc 0x10 then 16 * tile.toNat
  else 0x800 + 16 * ((tile.toNat + 128) % 256)

def tilePixel (v : Video) (base x y : Nat) : TilePixel :=
  let i := mapIndex base x y
  let address := v.tileBase (v.vram0.get i)
  let attributes := if v.cgb then v.vram1.get i else 0
  let row := if hasBit attributes 0x40 then 7 - y % 8 else y % 8
  let column := if hasBit attributes 0x20 then x % 8 else 7 - x % 8
  let tiles := v.bank (hasBit attributes 0x08)
  {
    color := rowColor (tiles.get (address + 2 * row)) (tiles.get (address + 2 * row + 1)) column
    palette := attributes.toNat % 8
    priority := hasBit attributes 0x80 }

/-- The background is drawn; on a colour console it always is. -/
def bgEnabled (v : Video) : Bool := v.cgb || hasBit v.lcdc 0x01

/-- The largest window position that is still on the screen. -/
def maxWindowX : UInt8 := 166

def windowOnLine (v : Video) : Bool :=
  hasBit v.lcdc 0x20 && v.windowReached && v.wx ≤ maxWindowX

end DotMatrix.Video
