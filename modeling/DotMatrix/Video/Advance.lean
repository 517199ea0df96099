import DotMatrix.Interrupt
import DotMatrix.Video.Scanline

/-!
# The passing of dots

A visible line is an object scan, a pixel transfer and a horizontal blank; the
lines behind the screen are the vertical blank. `Run.tick` is one dot, and
`Video.advance` is as many as asked for.
-/
namespace DotMatrix.Video

def modeDots (v : Video) : Nat :=
  match v.mode with
  | .scan => scanDots
  | .transfer => v.transferDots
  | .hblank => dotsPerLine - scanDots - v.transferDots
  | .vblank => dotsPerLine

/-- Scrolling, sprites and the window make a transfer longer. -/
def transferLength (v : Video) : Nat :=
  let sprites := if hasBit v.lcdc 0x02 then 6 * v.spriteCount else 0
  let window := if v.windowOnLine then 6 else 0
  min (minTransferDots + v.scx.toNat % 8 + sprites + window) maxTransferDots

/-- Compares the line, which happens only while the screen is on. -/
def compareLine (v : Video) : Video :=
  if v.enabled then { v with coincidence := v.ly == v.lyc.toNat } else v

/-- The sources of the status interrupt: the compared line and the chosen modes. -/
def statSignal (v : Video) : Bool :=
  v.enabled &&
    ((v.coincidence && hasBit v.stat 0x40) ||
      match v.mode with
      | .hblank => hasBit v.stat 0x08
      | .vblank => hasBit v.stat 0x10
      | .scan => hasBit v.stat 0x20
      | .transfer => false)

/-- Follows the signal, and requests an interrupt where it rises. -/
def updateStat (v : Video) (flags : UInt8) : Video × UInt8 :=
  let now := v.statSignal
  ({ v with statLine := now }, Interrupt.stat.raise flags (now && !v.statLine))

def beginLine (v : Video) : Video :=
  { v with
    windowReached := v.windowReached || v.ly == v.wy.toNat
    mode := .scan }

/-- The unit on its way through a number of dots. -/
structure Run where
  video : Video
  flags : UInt8
  /-- Horizontal blanks begun. -/
  hblanks : Nat := 0
  /-- A vertical blank has begun. -/
  vblank : Bool := false
deriving Inhabited

namespace Run

def nextMode (r : Run) : Run :=
  let v := { r.video with clock := 0 }
  match v.mode with
  | .scan =>
    let v := v.scanSprites
    { r with video := { v with transferDots := v.transferLength, mode := .transfer } }
  | .transfer =>
    { r with video := { v.drawLine with mode := .hblank }, hblanks := r.hblanks + 1 }
  | .hblank =>
    let v := { v with ly := v.ly + 1 }
    if v.ly = screenHeight then
      { r with
        video := { v with mode := .vblank, frames := v.frames + 1 }
        flags := Interrupt.vblank.raise r.flags true
        vblank := true }
    else { r with video := v.beginLine }
  | .vblank =>
    if v.ly = lastLine then
      { r with
        video := { v with ly := 0, windowLine := 0, windowReached := false }.beginLine }
    else { r with video := { v with ly := v.ly + 1 } }

/-- What follows every change of mode or line. -/
def settle (r : Run) : Run :=
  let (video, flags) := r.video.compareLine.updateStat r.flags
  { r with video, flags }

def tick (r : Run) : Run :=
  if r.video.clock + 1 < r.video.modeDots then
    { r with video := { r.video with clock := r.video.clock + 1 } }
  else r.nextMode.settle

end Run

/-- A number of dots. Nothing moves while the screen is off. -/
def advance (dots : Nat) (v : Video) (flags : UInt8) : Run :=
  if v.enabled then Nat.repeat Run.tick dots { video := v, flags }
  else { video := v, flags }

end DotMatrix.Video
