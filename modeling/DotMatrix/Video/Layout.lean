import DotMatrix.Snapshot.Layout
import DotMatrix.Video.Advance

/-!
# The video unit in a snapshot
-/
namespace DotMatrix.Video

def signed16 (n : Nat) : Int := if n < 0x8000 then n else n - 0x10000

def Sprite.encode (s : Sprite) : Bytes :=
  littleEndian 2 (s.x % 0x10000).toNat ++ littleEndian 2 (s.y % 0x10000).toNat ++
    [s.tile, s.flags, s.index]

def Sprite.size : Nat := 7

def Sprite.decode : Bytes → Sprite
  | [x0, x1, y0, y1, tile, flags, index] =>
    { x := signed16 (ofLittleEndian [x0, x1]), y := signed16 (ofLittleEndian [y0, y1])
      tile, flags, index }
  | _ => {}

def decodeSprites : Nat → Bytes → List Sprite
  | 0, _ => []
  | n + 1, bytes => Sprite.decode (bytes.take Sprite.size) ::
      decodeSprites n (bytes.drop Sprite.size)

/-- Four shades to a byte, the first lowest. -/
def packShades : Bytes → Bytes
  | a :: b :: c :: d :: rest =>
    (a % 4 + 4 * (b % 4) + 16 * (c % 4) + 64 * (d % 4)) :: packShades rest
  | _ => []

def unpackShades : Bytes → Bytes
  | [] => []
  | b :: rest => b % 4 :: b / 4 % 4 :: b / 16 % 4 :: b / 64 :: unpackShades rest

/-- The place in the frame is one that the unit can be at. -/
def positionInRange (v : Video) : Bool := v.ly ≤ lastLine && v.clock < v.modeDots

def modeMatchesLine (v : Video) : Bool := decide (screenHeight ≤ v.ly) == (v.mode == .vblank)

def layout : Snapshot.Layout Video :=
  .fields [
    .block (·.vram0) fun v m => { v with vram0 := m },
    .block (·.vram1) fun v m => { v with vram1 := m },
    .block (·.oam) fun v m => { v with oam := m },
    .number 1 (·.secondBank.toNat) fun v n => { v with secondBank := n % 2 != 0 },
    .byte (·.lcdc) fun v b => { v with lcdc := b },
    .byte (·.stat) fun v b => { v with stat := b },
    .byte (·.scy) fun v b => { v with scy := b },
    .byte (·.scx) fun v b => { v with scx := b },
    .number 1 (·.ly) fun v n => { v with ly := n },
    .byte (·.lyc) fun v b => { v with lyc := b },
    .flag (·.coincidence) fun v b => { v with coincidence := b },
    .byte (·.dma) fun v b => { v with dma := b },
    .byte (·.bgp) fun v b => { v with bgp := b },
    .byte (·.obp0) fun v b => { v with obp0 := b },
    .byte (·.obp1) fun v b => { v with obp1 := b },
    .byte (·.wy) fun v b => { v with wy := b },
    .byte (·.wx) fun v b => { v with wx := b },
    .byte (·.windowLine) fun v b => { v with windowLine := b },
    .flag (·.windowReached) fun v b => { v with windowReached := b },
    .byte (·.bgIndex) fun v b => { v with bgIndex := b },
    .block (·.bgColors) fun v m => { v with bgColors := m },
    .byte (·.objIndex) fun v b => { v with objIndex := b },
    .block (·.objColors) fun v m => { v with objColors := m },
    .number 1 (·.byPosition.toNat) fun v n => { v with byPosition := n % 2 != 0 },
    .number 1 (·.mode.code.toNat) fun v n => { v with mode := .ofCode n },
    .number 4 (·.clock) fun v n => { v with clock := n },
    .number 4 (·.transferDots) fun v n =>
      { v with transferDots := min (max n minTransferDots) maxTransferDots },
    .flag (·.statLine) fun v b => { v with statLine := b },
    .number 8 (·.frames.toNat) fun v n => { v with frames := UInt64.ofNat n },
    .number 1 (·.spriteCount) fun v n => { v with spriteCount := n },
    .require positionInRange .positionOutOfRange,
    .require modeMatchesLine .modeDoesNotMatchLine,
    .require (·.spriteCount ≤ spritesPerLine) .spriteCountOutOfRange,
    .field (Sprite.size * spritesPerLine) (·.slots.flatMap Sprite.encode) fun v bytes =>
      { v with slots := decodeSprites spritesPerLine bytes },
    .field (screenWidth * screenHeight / 4) (packShades ·.shades.toList) fun v bytes =>
      match Memory.ofList? (screenWidth * screenHeight) (unpackShades bytes) with
      | some m => { v with shades := m }
      | none => v]

end DotMatrix.Video
