import DotMatrix.Video.Sprite

/-!
# Scanlines

A line is painted in passes over its columns: blank columns first, then the background, the
window over it, and the sprites in drawing order. The sprites ask the buffers about the
backdrop. The first opaque sprite claims a column and keeps the others out, also where the
backdrop hides it.
-/
namespace DotMatrix.Video

/-- A column of a line that is being painted. -/
structure Cell where
  pixel : UInt16
  /-- The backdrop has colour zero. -/
  clear : Bool := true
  /-- The tile of the backdrop covers sprites. -/
  covers : Bool := false
  /-- An opaque sprite owns the column. -/
  claimed : Bool := false
deriving DecidableEq, Repr, Inhabited

/-- A line that is being painted. What sprites claim is forgotten with the line. -/
structure Canvas extends LineBuffers where
  claimed : Vector Bool screenWidth := .replicate screenWidth false

namespace Canvas

def get (c : Canvas) (x : Nat) : Cell :=
  if h : x < screenWidth then
    { pixel := c.pixels[x], clear := c.colorZero[x], covers := c.priority[x]
      claimed := c.claimed[x] }
  else default

def put (c : Canvas) (x : Nat) (cell : Cell) : Canvas where
  pixels := c.pixels.setIfInBounds x cell.pixel
  priority := c.priority.setIfInBounds x cell.covers
  colorZero := c.colorZero.setIfInBounds x cell.clear
  claimed := c.claimed.setIfInBounds x cell.claimed

def sweep (paint : Nat → Cell) (columns : List Nat) (c : Canvas) : Canvas :=
  columns.foldl (fun c x => c.put x (paint x)) c

/-- Paints columns from `left` on, which may lie outside of the screen, over what is there. -/
def strip (paint : Nat → Cell → Cell) (left : Int) (width : Nat) (c : Canvas) : Canvas :=
  (List.range width).foldl (fun c (k : Nat) =>
    let x := left + k
    if 0 ≤ x ∧ x < screenWidth then c.put x.toNat (paint k (c.get x.toNat)) else c) c

end Canvas

def blankPass (v : Video) : Canvas → Canvas :=
  .sweep (fun _ => { pixel := v.bgPixel 0 0 }) (List.range screenWidth)

def tileCell (v : Video) (t : TilePixel) : Cell where
  pixel := v.bgPixel t.palette t.color
  clear := t.color == 0
  covers := t.priority

def backgroundPass (v : Video) : Canvas → Canvas :=
  let base := mapBase (hasBit v.lcdc 0x08)
  let y := (v.ly + v.scy.toNat) % 256
  .sweep (fun x => v.tileCell (v.tilePixel base ((x + v.scx.toNat) % 256) y))
    (List.range screenWidth)

/-- The window begins seven columns before its register, and at the border at the earliest. -/
def windowPass (v : Video) : Canvas → Canvas :=
  let base := mapBase (hasBit v.lcdc 0x40)
  let first := v.wx.toNat - 7
  .sweep (fun x => v.tileCell (v.tilePixel base (x + 7 - v.wx.toNat) v.windowLine.toNat))
    (List.range' first (screenWidth - first))

def backdropPasses (v : Video) (c : Canvas) : Canvas :=
  if v.bgEnabled then
    let c := v.backgroundPass c
    if v.windowOnLine then v.windowPass c else c
  else c

/-- A column under a sprite with a colour there. -/
def claim (v : Video) (s : Sprite) (color : Nat) (cell : Cell) : Cell :=
  if color == 0 || cell.claimed then cell
  else
    let cell := { cell with claimed := true }
    if v.bgPriority && (v.bgEnabled && !cell.clear) &&
        (hasBit s.flags 0x80 || (v.cgb && cell.covers)) then cell
    else { cell with pixel := v.objPixel s.flags color }

/-- The pixels of a sprite, as far as they are on the screen. -/
def spritePass (v : Video) (c : Canvas) (s : Sprite) : Canvas :=
  if v.overlaps s then
    let tiles := v.bank (v.cgb && hasBit s.flags 0x08)
    let low := tiles.get (v.spriteAddress s)
    let high := tiles.get (v.spriteAddress s + 1)
    let color k := rowColor low high (if hasBit s.flags 0x20 then k else 7 - k)
    c.strip (fun k => v.claim s (color k)) s.x 8
  else c

def spritePasses (v : Video) (c : Canvas) : Canvas :=
  if hasBit v.lcdc 0x02 then v.lineSprites.foldl v.spritePass c else c

/-- The current line, painted over what the buffers hold. -/
def painted (v : Video) : Canvas :=
  v.spritePasses (v.backdropPasses (v.blankPass { toLineBuffers := v.buffers }))

/-- Draws the current line: it is finished, its shades go into the frame, and the
window moves on if it was drawn. -/
def drawLine (v : Video) : Video :=
  let c := v.painted
  let shades := c.pixels.toList.map v.pixelShade
  { v with
    buffers := c.toLineBuffers
    finished := v.finished.push { line := v.ly, format := v.format, pixels := c.pixels.toArray }
    shades := v.shades.write (screenWidth * v.ly) shades
    windowLine := if v.bgEnabled && v.windowOnLine then v.windowLine + 1 else v.windowLine }

end DotMatrix.Video
