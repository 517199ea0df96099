import DotMatrix.Video.Basic

/-!
# Palettes

From colour numbers to pixels. Without colour features a palette register maps
the four colour numbers to shades; with them a palette is four colours in palette
memory. A colour console that runs a monochrome cartridge does both.
-/
namespace DotMatrix.Video

def shadeOf (palette : UInt8) (color : Nat) : Nat := (palette.toNat >>> (2 * color)) % 4

def colorWord (colors : Memory 64) (palette color : Nat) : UInt16 :=
  let i := 8 * palette + 2 * color
  ((colors.get i).toUInt16 + 0x100 * (colors.get (i + 1)).toUInt16) &&& 0x7FFF

def bgPixel (v : Video) (palette color : Nat) : UInt16 :=
  if v.cgb then colorWord v.bgColors palette color
  else
    let shade := shadeOf v.bgp color
    if v.colorOutput then colorWord v.bgColors 0 shade else UInt16.ofNat shade

def objPixel (v : Video) (flags : UInt8) (color : Nat) : UInt16 :=
  if v.cgb then colorWord v.objColors (flags.toNat % 8) color
  else
    let second := hasBit flags 0x10
    let shade := shadeOf (if second then v.obp1 else v.obp0) color
    if v.colorOutput then colorWord v.objColors (if second then 1 else 0) shade
    else UInt16.ofNat shade

def colorShade (color : UInt16) : UInt8 :=
  let n := color.toNat
  let luma := (3 * (n % 32) + 6 * (n / 32 % 32) + n / 1024 % 32) / 10
  3 - UInt8.ofNat (luma * 4 / 32)

def pixelShade (v : Video) (pixel : UInt16) : UInt8 :=
  if v.colorOutput then colorShade pixel else pixel.toUInt8

def paletteBytes (colors : List Nat) : Bytes := colors.flatMap (littleEndian 2)

/-- The palettes that a colour console installs for a monochrome cartridge. -/
def installPalettes (v : Video) : Video :=
  let obj := paletteBytes [0x7FFF, 0x421F, 0x1CF2, 0x0000]
  let bg := paletteBytes [0x7FFF, 0x1BEF, 0x6180, 0x0000]
  { v with
    objColors := (v.objColors.write 0 obj).write 8 obj
    bgColors := v.bgColors.write 0 bg
    bgp := 0xE4
    obp0 := 0xD0
    obp1 := 0xE0 }

/-- The state that the boot ROM leaves: the screen on, at the top of a frame. -/
def boot (v : Video) : Video :=
  let v := { v with
    lcdc := 0x91
    stat := 0x80
    bgp := 0xFC
    ly := 0
    mode := .scan
    clock := 0
    coincidence := v.lyc == 0
    statLine := false }
  if v.colorOutput && !v.cgb then v.installPalettes else v

end DotMatrix.Video
