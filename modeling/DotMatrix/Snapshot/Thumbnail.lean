import DotMatrix.Console
import DotMatrix.Snapshot.Container

/-!
# Thumbnails

A snapshot ends in a picture of one bit per pixel: the last frame in four
shades, dithered by a pattern per level. A set bit is a light pixel, and the
leftmost pixel of a byte is its highest bit.
-/
namespace DotMatrix.Snapshot.Thumbnail

def bytesPerRow : Nat := screenWidth / 8

def size : Nat := bytesPerRow * screenHeight

/-- One of five levels between light and dark. The two shades in the middle share a
level when the other pixel of the pair lies on the far side. -/
def level (shade neighbour : UInt8) : Nat :=
  match shade.toNat % 4 with
  | 0 => 0
  | 1 => if 2 ≤ neighbour.toNat % 4 then 2 else 1
  | 2 => if neighbour.toNat % 4 < 2 then 2 else 3
  | _ => 4

/-- The light pixels of a level, column by column from the lowest bit. -/
def pattern : Nat → UInt8
  | 0 => 0xFF
  | 1 => 0xBB
  | 2 => 0x55
  | 3 => 0x22
  | _ => 0x00

def rotateRight (v : UInt8) (n : UInt8) : UInt8 := (v >>> n) ||| (v <<< (8 - n))

/-- The pattern on a row: odd rows are shifted. -/
def rowPattern (level y : Nat) : UInt8 :=
  if y % 2 = 0 then pattern level
  else rotateRight (pattern level) (if level = 2 then 1 else 2)

def neighbour (x : Nat) : Nat := if x % 2 = 0 then x + 1 else x - 1

/-- Whether a pixel is light, in a frame of shades given by row and column. -/
def light (shade : Nat → Nat → UInt8) (y x : Nat) : Bool :=
  (rowPattern (level (shade y x) (shade y (neighbour x))) y >>> UInt8.ofNat (x % 8)) &&& 1 = 1

/-- Eight pixels in one byte. -/
def packRow (shade : Nat → Nat → UInt8) (y column : Nat) : UInt8 :=
  (List.range 8).foldl
    (fun packed k => 2 * packed + (if light shade y (8 * column + k) then 1 else 0)) 0

def dither (shade : Nat → Nat → UInt8) : Bytes :=
  (List.range screenHeight).flatMap fun y =>
    (List.range bytesPerRow).map (packRow shade y)

def read (blob : Bytes) : Except SnapshotFault Bytes := do
  let payloads ← (← Reader.ofBlob blob).payloads
  match payloads.getLast? with
  | none => throw .noSections
  | some payload =>
    let (picture, rest) ← take size payload
    finishSection rest
    return picture

end DotMatrix.Snapshot.Thumbnail
