import DotMatrix.Video.Tile

/-!
# Sprites

A line shows at most ten sprites: the first in the object table that overlap it.
Where several are opaque, the first in drawing order owns the pixel.
-/
namespace DotMatrix.Video

def spriteHeight (v : Video) : Int := if hasBit v.lcdc 0x04 then 16 else 8

def object (v : Video) (i : Nat) : Sprite where
  y := (v.oam.get (4 * i)).toNat - 16
  x := (v.oam.get (4 * i + 1)).toNat - 8
  tile := v.oam.get (4 * i + 2)
  flags := v.oam.get (4 * i + 3)
  index := UInt8.ofNat i

def overlaps (v : Video) (s : Sprite) : Bool :=
  s.y ≤ v.ly && (v.ly : Int) < s.y + v.spriteHeight

/-- The sprites of the current line, in the order of the table. -/
def selected (v : Video) : List Sprite :=
  (((List.range objectCount).map v.object).filter v.overlaps).take spritesPerLine

/-- Drawing order: by the table, or by position and then by the table. -/
def before (v : Video) (a b : Sprite) : Bool :=
  if v.cgb && !v.byPosition then a.index ≤ b.index
  else a.x < b.x || (a.x == b.x && a.index ≤ b.index)

def scanSprites (v : Video) : Video :=
  let sprites := v.selected.mergeSort v.before
  { v with
    slots := sprites ++ v.slots.drop sprites.length
    spriteCount := sprites.length }

def lineSprites (v : Video) : List Sprite := v.slots.take v.spriteCount

/-- The row of a sprite's picture on the current line, counted down the flipped
picture where the sprite is flipped. -/
def spriteRow (v : Video) (s : Sprite) : Int :=
  let row := v.ly - s.y
  if hasBit s.flags 0x40 then v.spriteHeight - 1 - row else row

/-- Where the row of a sprite's picture begins. A tall sprite takes two tiles. -/
def spriteAddress (v : Video) (s : Sprite) : Nat :=
  let tile := if hasBit v.lcdc 0x04 then s.tile &&& 0xFE else s.tile
  16 * tile.toNat + 2 * (v.spriteRow s).toNat

/-- Sprites yield to the background where it asks for priority. -/
def bgPriority (v : Video) : Bool := !v.cgb || hasBit v.lcdc 0x01

end DotMatrix.Video
