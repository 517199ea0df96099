import DotMatrix.Proofs.Video.Painter
import DotMatrix.Proofs.Video.Range
import DotMatrix.Proofs.Width

/-!
# Painting in words

The passes over a line once more, in arithmetic that may not go beyond its words: sprites and
the left border of the window have signed places of 16 bits, and tiles, colours and columns
are looked up where they lie. Every pass has a result, and it is the painter's own, but for
one thing. A sprite whose place is that of no object can be so far from the line or from the
screen that its row or its columns are told by no such word.
-/
namespace DotMatrix.Video

open Width

/-! ## Palettes -/

def shadeInWords (palette : UInt8) (color : Nat) : Option Nat := do
  let places ← word 8 (2 * color)
  return (← shiftedRight 8 palette.toNat places) % 4

def colorInWords (colors : Memory 64) (palette color : Nat) : Option UInt16 := do
  let i := 8 * palette + 2 * color
  let low ← byteAt colors i
  let high ← byteAt colors (i + 1)
  return (low.toUInt16 + 0x100 * high.toUInt16) &&& 0x7FFF

def bgPixelInWords (v : Video) (palette color : Nat) : Option UInt16 := do
  if v.cgb then colorInWords v.bgColors palette color
  else
    let shade ← shadeInWords v.bgp color
    if v.colorOutput then colorInWords v.bgColors 0 shade else return UInt16.ofNat shade

def objPixelInWords (v : Video) (flags : UInt8) (color : Nat) : Option UInt16 := do
  if v.cgb then colorInWords v.objColors (flags.toNat % 8) color
  else
    let second := hasBit flags 0x10
    let shade ← shadeInWords (if second then v.obp1 else v.obp0) color
    if v.colorOutput then colorInWords v.objColors (if second then 1 else 0) shade
    else return UInt16.ofNat shade

def colorShadeInWords (color : UInt16) : Option UInt8 := do
  let n := color.toNat
  let luma := (3 * (n % 32) + 6 * (n / 32 % 32) + n / 1024 % 32) / 10
  return UInt8.ofNat (← minus 3 (luma * 4 / 32))

def pixelShadeInWords (v : Video) (pixel : UInt16) : Option UInt8 :=
  if v.colorOutput then colorShadeInWords pixel else some pixel.toUInt8

variable {v : Video}

theorem shadeInWords_eq (palette : UInt8) {color : Nat} (h : color < 4) :
    shadeInWords palette color = some (shadeOf palette color) := by
  rw [shadeInWords, word_of_lt (by omega), Option.bind_eq_bind, Option.bind_some,
    shiftedRight_of_lt (by omega)]
  rfl

theorem colorInWords_eq (colors : Memory 64) {palette color : Nat} (hp : palette < 8)
    (hc : color < 4) : colorInWords colors palette color = some (colorWord colors palette color) := by
  simp only [colorInWords, colorWord]
  rw [byteAt_of_lt _ (by omega), byteAt_of_lt _ (by omega)]
  rfl

theorem bgPixelInWords_eq (v : Video) {palette color : Nat} (hp : palette < 8) (hc : color < 4) :
    v.bgPixelInWords palette color = some (v.bgPixel palette color) := by
  rw [bgPixelInWords, bgPixel, colorInWords_eq _ hp hc, shadeInWords_eq _ hc]
  simp only [Option.bind_eq_bind, Option.bind_some, colorInWords_eq _ (Nat.zero_lt_succ 7)
    (shadeOf_lt _ _), Option.pure_def, apply_ite some]

theorem objPixelInWords_eq (v : Video) (flags : UInt8) {color : Nat} (hc : color < 4) :
    v.objPixelInWords flags color = some (v.objPixel flags color) := by
  have hp : flags.toNat % 8 < 8 := Nat.mod_lt _ (by decide)
  have hsecond : (if hasBit flags 0x10 then 1 else 0) < 8 := by split <;> decide
  simp only [objPixelInWords, objPixel]
  rw [colorInWords_eq _ hp hc, shadeInWords_eq _ hc]
  simp only [Option.bind_eq_bind, Option.bind_some, colorInWords_eq _ hsecond (shadeOf_lt _ _),
    Option.pure_def, apply_ite some]

theorem colorShadeInWords_eq (color : UInt16) :
    colorShadeInWords color = some (colorShade color) := by
  have hl : (3 * (color.toNat % 32) + 6 * (color.toNat / 32 % 32) + color.toNat / 1024 % 32) / 10 *
      4 / 32 ≤ 3 := by omega
  simp only [colorShadeInWords, colorShade]
  generalize (3 * (color.toNat % 32) + 6 * (color.toNat / 32 % 32) + color.toNat / 1024 % 32) / 10 *
    4 / 32 = q at hl
  rw [minus_of_le hl]
  have hq : q = 0 ∨ q = 1 ∨ q = 2 ∨ q = 3 := by omega
  rcases hq with rfl | rfl | rfl | rfl <;> rfl

theorem pixelShadeInWords_eq (v : Video) (pixel : UInt16) :
    v.pixelShadeInWords pixel = some (v.pixelShade pixel) := by
  rw [pixelShadeInWords, pixelShade, colorShadeInWords_eq, apply_ite some]

/-! ## Tiles -/

def rowColorInWords (low high : UInt8) (k : Nat) : Option Nat := do
  return 2 * ((← shiftedRight 8 high.toNat k) % 2) + (← shiftedRight 8 low.toNat k) % 2

/-- Where the data of a background tile begins. Around the middle the tile is a signed byte. -/
def tileBaseInWords (v : Video) (tile : UInt8) : Option Nat := do
  if hasBit v.lcdc 0x10 then return 16 * tile.toNat
  else
    let place ← signedWord 16 (tile.toInt8.toInt + 128)
    return 0x800 + 16 * place.toNat

def attributesInWords (v : Video) (i : Nat) : Option UInt8 :=
  if v.cgb then byteAt v.vram1 i else some 0

/-- A row or a column of a tile, counted from the other end where it is mirrored. -/
def mirrorInWords (mirrored : Bool) (k : Nat) : Option Nat := if mirrored then minus 7 k else some k

def tilePixelInWords (v : Video) (base x y : Nat) : Option TilePixel := do
  let i := mapIndex base x y
  let address ← v.tileBaseInWords (← byteAt v.vram0 i)
  let attributes ← v.attributesInWords i
  let row ← mirrorInWords (hasBit attributes 0x40) (y % 8)
  let column ← mirrorInWords (!hasBit attributes 0x20) (x % 8)
  let tiles := v.bank (hasBit attributes 0x08)
  let low ← byteAt tiles (address + 2 * row)
  let high ← byteAt tiles (address + 2 * row + 1)
  let color ← rowColorInWords low high column
  return { color, palette := attributes.toNat % 8, priority := hasBit attributes 0x80 }

theorem rowColor_lt (low high : UInt8) (k : Nat) : rowColor low high k < 4 := by
  rw [rowColor, bitOf, bitOf]
  omega

theorem rowColorInWords_eq (low high : UInt8) {k : Nat} (h : k < 8) :
    rowColorInWords low high k = some (rowColor low high k) := by
  rw [rowColorInWords, shiftedRight_of_lt h, shiftedRight_of_lt h]
  rfl

/-- Tiles around the middle are counted the same from the signed and from the plain byte. -/
theorem toInt_toInt8_add (tile : UInt8) :
    tile.toInt8.toInt + 128 = ((tile.toNat + 128) % 256 : Nat) := by
  have ht := tile.toNat_lt
  change tile.toBitVec.toInt + 128 = ((tile.toBitVec.toNat + 128) % 256 : Nat)
  change tile.toBitVec.toNat < 256 at ht
  rw [BitVec.toInt_eq_toNat_cond]
  split <;> omega

theorem tileBaseInWords_eq (v : Video) (tile : UInt8) :
    v.tileBaseInWords tile = some (v.tileBase tile) := by
  rw [tileBaseInWords, tileBase, toInt_toInt8_add, signedWord_of_bounds (by omega) (by omega)]
  split <;> rfl

theorem tileBase_le (v : Video) (tile : UInt8) : v.tileBase tile ≤ 0x17F0 := by
  have ht := tile.toNat_lt
  rw [tileBase]
  split <;> omega

theorem mapBase_le (second : Bool) : mapBase second ≤ 0x1C00 := by
  cases second <;> decide

theorem mapIndex_lt {base x y : Nat} (hb : base ≤ 0x1C00) (hx : x < 256) (hy : y < 256) :
    mapIndex base x y < bankSize := by
  rw [mapIndex, bankSize]
  omega

theorem attributesInWords_eq (v : Video) {i : Nat} (h : i < bankSize) :
    v.attributesInWords i = some (if v.cgb then v.vram1.get i else 0) := by
  rw [attributesInWords, byteAt_of_lt _ h, apply_ite some]

theorem mirrorInWords_eq (mirrored : Bool) {k : Nat} (h : k < 8) :
    mirrorInWords mirrored k = some (if mirrored then 7 - k else k) := by
  rw [mirrorInWords, minus_of_le (Nat.le_of_lt_succ h), apply_ite some]

theorem mirror_lt (mirrored : Bool) {k : Nat} (h : k < 8) :
    (if mirrored then 7 - k else k) < 8 := by
  split <;> omega

theorem tilePixelInWords_eq (v : Video) {base x y : Nat} (hb : base ≤ 0x1C00) (hx : x < 256)
    (hy : y < 256) : v.tilePixelInWords base x y = some (v.tilePixel base x y) := by
  have hi := mapIndex_lt hb hx hy
  have hrow : y % 8 < 8 := Nat.mod_lt _ (by decide)
  have hcolumn : x % 8 < 8 := Nat.mod_lt _ (by decide)
  simp only [tilePixelInWords, tilePixel, byteAt_of_lt _ hi, tileBaseInWords_eq,
    attributesInWords_eq v hi, mirrorInWords_eq _ hrow, mirrorInWords_eq _ hcolumn,
    Option.bind_eq_bind, Option.bind_some]
  generalize (if v.cgb then v.vram1.get (mapIndex base x y) else 0) = attributes
  have haddress := v.tileBase_le (v.vram0.get (mapIndex base x y))
  generalize v.tileBase (v.vram0.get (mapIndex base x y)) = address at haddress
  have hflip := mirror_lt (hasBit attributes 0x40) hrow
  generalize (if hasBit attributes 0x40 then 7 - y % 8 else y % 8) = row at hflip
  have hlow : address + 2 * row + 1 < bankSize := by
    rw [bankSize]
    omega
  rw [byteAt_of_lt _ (Nat.lt_of_succ_lt hlow), byteAt_of_lt _ hlow, Option.bind_some,
    Option.bind_some, rowColorInWords_eq _ _ (mirror_lt _ hcolumn)]
  cases hasBit attributes 0x20 <;> rfl

theorem tilePixel_bounds (v : Video) (base x y : Nat) :
    (v.tilePixel base x y).palette < 8 ∧ (v.tilePixel base x y).color < 4 :=
  ⟨Nat.mod_lt _ (by decide), rowColor_lt _ _ _⟩

/-! ## Passes over the backdrop -/

namespace Canvas

def cellAt (c : Canvas) (x : Nat) : Option Cell := if x < screenWidth then some (c.get x) else none

/-- The line with a new column where it has one. -/
def putAt (c : Canvas) (x : Nat) (cell : Cell) : Option Canvas :=
  if x < screenWidth then some (c.put x cell) else none

def sweepInWords (paint : Nat → Option Cell) (columns : List Nat) (c : Canvas) : Option Canvas :=
  columns.foldlM (fun c x => do c.putAt x (← paint x)) c

def stripInWords (paint : Nat → Cell → Option Cell) (left : Int) (width : Nat) (c : Canvas) :
    Option Canvas :=
  (List.range width).foldlM (fun (c : Canvas) (k : Nat) => do
    let x ← signedWord 16 (left + k)
    if 0 ≤ x ∧ x < screenWidth then c.putAt x.toNat (← paint k (← c.cellAt x.toNat))
    else return c) c

theorem cellAt_of_lt {x : Nat} (c : Canvas) (h : x < screenWidth) : c.cellAt x = some (c.get x) :=
  if_pos h

theorem putAt_of_lt {x : Nat} (c : Canvas) (h : x < screenWidth) (cell : Cell) :
    c.putAt x cell = some (c.put x cell) :=
  if_pos h

theorem sweepInWords_eq {paint? : Nat → Option Cell} {paint : Nat → Cell} {columns : List Nat}
    (h : ∀ x ∈ columns, x < screenWidth ∧ paint? x = some (paint x)) (c : Canvas) :
    c.sweepInWords paint? columns = some (c.sweep paint columns) := by
  refine foldlM_eq (fun x hx c => ?_) c
  obtain ⟨hlt, hpaint⟩ := h x hx
  rw [hpaint, Option.bind_eq_bind, Option.bind_some, putAt_of_lt c hlt]

/-- Columns from a place that a word can tell are told by words up to the largest one. -/
theorem stripInWords_eq {paint? : Nat → Cell → Option Cell} {paint : Nat → Cell → Cell} {left : Int}
    {width : Nat} (hl : -0x8000 ≤ left)
    (h : ∀ k < width, ∀ cell, paint? k cell = some (paint k cell)) (c : Canvas) :
    c.stripInWords paint? left width =
      if ∃ k ∈ List.range width, 0x8000 ≤ left + k then none
      else some (c.strip paint left width) := by
  refine foldlM_eq_ite (fun k hk c => ?_) c
  split
  · rename_i hfar
    rw [signedWord, if_neg (by omega)]
    rfl
  · rename_i hnear
    rw [signedWord_of_bounds (by omega) (by omega), Option.bind_eq_bind, Option.bind_some]
    dsimp only
    split
    · rename_i hin
      have hlt : (left + k).toNat < screenWidth := by omega
      rw [cellAt_of_lt c hlt, Option.bind_eq_bind, Option.bind_some, h k (List.mem_range.mp hk),
        Option.bind_some, putAt_of_lt c hlt]
    · rfl

end Canvas

def blankPassInWords (v : Video) (c : Canvas) : Option Canvas := do
  let pixel ← v.bgPixelInWords 0 0
  c.sweepInWords (fun _ => some { pixel }) (List.range screenWidth)

def tileCellInWords (v : Video) (t : TilePixel) : Option Cell := do
  let pixel ← v.bgPixelInWords t.palette t.color
  return { pixel, clear := t.color == 0, covers := t.priority }

def backgroundPassInWords (v : Video) (c : Canvas) : Option Canvas :=
  let base := mapBase (hasBit v.lcdc 0x08)
  let y := (v.ly + v.scy.toNat) % 256
  c.sweepInWords (fun x => do
    v.tileCellInWords (← v.tilePixelInWords base ((x + v.scx.toNat) % 256) y))
    (List.range screenWidth)

/-- The left border of the window is a signed word, as it may lie left of the screen. -/
def windowPassInWords (v : Video) (c : Canvas) : Option Canvas := do
  let base := mapBase (hasBit v.lcdc 0x40)
  let left ← signedWord 16 (v.wx.toNat - 7)
  let first := (max left 0).toNat
  c.sweepInWords (fun x => do
    let column ← signedWord 16 (x - left)
    v.tileCellInWords (← v.tilePixelInWords base column.toNat v.windowLine.toNat))
    (List.range' first (screenWidth - first))

def backdropPassesInWords (v : Video) (c : Canvas) : Option Canvas := do
  if v.bgEnabled then
    let c ← v.backgroundPassInWords c
    if v.windowOnLine then v.windowPassInWords c else return c
  else return c

theorem blankPassInWords_eq (v : Video) (c : Canvas) :
    v.blankPassInWords c = some (v.blankPass c) := by
  rw [blankPassInWords, bgPixelInWords_eq v (by decide) (by decide), Option.bind_eq_bind,
    Option.bind_some]
  exact Canvas.sweepInWords_eq (fun x hx => ⟨List.mem_range.mp hx, rfl⟩) c

theorem tileCellInWords_eq (v : Video) (base x y : Nat) :
    v.tileCellInWords (v.tilePixel base x y) = some (v.tileCell (v.tilePixel base x y)) := by
  obtain ⟨hp, hc⟩ := v.tilePixel_bounds base x y
  rw [tileCellInWords, bgPixelInWords_eq v hp hc]
  rfl

theorem backgroundPassInWords_eq (v : Video) (c : Canvas) :
    v.backgroundPassInWords c = some (v.backgroundPass c) := by
  refine Canvas.sweepInWords_eq (fun x hx => ⟨List.mem_range.mp hx, ?_⟩) c
  rw [tilePixelInWords_eq v (mapBase_le _) (Nat.mod_lt _ (by decide)) (Nat.mod_lt _ (by decide)),
    Option.bind_eq_bind, Option.bind_some, tileCellInWords_eq]

theorem windowPassInWords_eq (v : Video) (c : Canvas) :
    v.windowPassInWords c = some (v.windowPass c) := by
  have hwx := v.wx.toNat_lt
  have hfirst : (max ((v.wx.toNat : Int) - 7) 0).toNat = v.wx.toNat - 7 := by omega
  rw [windowPassInWords, signedWord_of_bounds (by omega) (by omega), Option.bind_eq_bind,
    Option.bind_some, hfirst]
  refine Canvas.sweepInWords_eq (fun x hx => ?_) c
  rw [List.mem_range'_1, screenWidth] at hx
  have hcolumn : ((x : Int) - (v.wx.toNat - 7)).toNat = x + 7 - v.wx.toNat := by omega
  refine ⟨by rw [screenWidth]; omega, ?_⟩
  rw [signedWord_of_bounds (by omega) (by omega), Option.bind_eq_bind, Option.bind_some, hcolumn,
    tilePixelInWords_eq v (mapBase_le _) (by omega) v.windowLine.toNat_lt, Option.bind_eq_bind,
    Option.bind_some, tileCellInWords_eq]

theorem backdropPassesInWords_eq (v : Video) (c : Canvas) :
    v.backdropPassesInWords c = some (v.backdropPasses c) := by
  rw [backdropPassesInWords, backdropPasses, backgroundPassInWords_eq]
  simp only [Option.bind_eq_bind, Option.bind_some, windowPassInWords_eq, Option.pure_def,
    apply_ite some]

/-! ## Sprites -/

/-- The row of a sprite or one of its columns is out of reach of a signed word: the sprite is
too far above the line, or on the line and too far to the right. -/
def Strays (v : Video) (s : Sprite) : Prop :=
  0x8000 ≤ v.ly - s.y ∨ (v.overlaps s = true ∧ 0x8000 ≤ s.x + 7)

instance (v : Video) (s : Sprite) : Decidable (v.Strays s) := inferInstanceAs (Decidable (_ ∨ _))

/-- Sprites are drawn on the current line, and one of them strays. -/
def Astray (v : Video) : Prop := hasBit v.lcdc 0x02 = true ∧ ∃ s ∈ v.lineSprites, v.Strays s

instance (v : Video) : Decidable v.Astray := inferInstanceAs (Decidable (_ ∧ _))

def claimInWords (v : Video) (s : Sprite) (color : Nat) (cell : Cell) : Option Cell := do
  if color == 0 || cell.claimed then return cell
  else
    let cell := { cell with claimed := true }
    if v.bgPriority && (v.bgEnabled && !cell.clear) &&
        (hasBit s.flags 0x80 || (v.cgb && cell.covers)) then return cell
    else return { cell with pixel := ← v.objPixelInWords s.flags color }

/-- Where a row of a sprite's picture begins, of which the flipped picture has the opposite. -/
def spriteAddressInWords (v : Video) (s : Sprite) (row : Int) : Option Nat := do
  let row ← if hasBit s.flags 0x40 then signedWord 16 (v.spriteHeight - 1 - row) else some row
  let tile := if hasBit v.lcdc 0x04 then s.tile &&& 0xFE else s.tile
  return 16 * tile.toNat + 2 * row.toNat

def spritePassInWords (v : Video) (c : Canvas) (s : Sprite) : Option Canvas := do
  let row ← signedWord 16 (v.ly - s.y)
  if 0 ≤ row ∧ row < v.spriteHeight then
    let address ← v.spriteAddressInWords s row
    let tiles := v.bank (v.cgb && hasBit s.flags 0x08)
    let low ← byteAt tiles address
    let high ← byteAt tiles (address + 1)
    c.stripInWords (fun k cell => do
      let column ← mirrorInWords (!hasBit s.flags 0x20) k
      v.claimInWords s (← rowColorInWords low high column) cell) s.x 8
  else return c

def spritePassesInWords (v : Video) (c : Canvas) : Option Canvas :=
  if hasBit v.lcdc 0x02 then
    (List.range v.spriteCount).foldlM (fun c i => v.slots[i]?.bind (v.spritePassInWords c)) c
  else some c

def paintedInWords (v : Video) : Option Canvas := do
  let c ← v.blankPassInWords { toLineBuffers := v.buffers }
  let c ← v.backdropPassesInWords c
  v.spritePassesInWords c

variable {s : Sprite}

theorem claimInWords_eq (v : Video) (s : Sprite) {color : Nat} (h : color < 4) (cell : Cell) :
    v.claimInWords s color cell = some (v.claim s color cell) := by
  rw [claimInWords, claim, objPixelInWords_eq v _ h]
  simp only [Option.bind_eq_bind, Option.bind_some, Option.pure_def, apply_ite some]

theorem spriteHeight_bounds (v : Video) : 8 ≤ v.spriteHeight ∧ v.spriteHeight ≤ 16 := by
  rw [spriteHeight]
  split <;> decide

theorem overlaps_iff : v.overlaps s = true ↔ 0 ≤ v.ly - s.y ∧ v.ly - s.y < v.spriteHeight := by
  rw [overlaps, Bool.and_eq_true, decide_eq_true_eq, decide_eq_true_eq]
  omega

theorem spriteAddressInWords_eq (h : v.overlaps s = true) :
    v.spriteAddressInWords s (v.ly - s.y) = some (v.spriteAddress s) := by
  have hheight := v.spriteHeight_bounds
  obtain ⟨h₀, h₁⟩ := overlaps_iff.mp h
  rw [spriteAddressInWords, signedWord_of_bounds (by omega) (by omega), spriteAddress, spriteRow]
  cases hasBit s.flags 0x40 <;> rfl

theorem spriteAddress_lt (h : v.overlaps s = true) : v.spriteAddress s + 1 < bankSize := by
  have hheight := v.spriteHeight_bounds
  obtain ⟨h₀, h₁⟩ := overlaps_iff.mp h
  have hrow : (v.spriteRow s).toNat < 16 := by
    rw [spriteRow]
    split <;> omega
  simp only [spriteAddress, bankSize]
  generalize (if hasBit v.lcdc 0x04 then s.tile &&& 0xFE else s.tile) = tile
  have ht := tile.toNat_lt
  omega

/-- Of a sprite on the line the last column reaches furthest. -/
theorem strays_iff_of_overlaps (h : v.overlaps s = true) :
    v.Strays s ↔ ∃ k ∈ List.range 8, 0x8000 ≤ s.x + (k : Nat) := by
  have hheight := v.spriteHeight_bounds
  obtain ⟨h₀, h₁⟩ := overlaps_iff.mp h
  rw [Strays, or_iff_right (by omega), and_iff_right h]
  constructor
  · intro hx
    exact ⟨7, by decide, hx⟩
  · rintro ⟨k, hk, hx⟩
    have hlt := List.mem_range.mp hk
    omega

theorem spritePassInWords_eq (hv : v.ly ≤ lastLine) (hs : s.Storable) (c : Canvas) :
    v.spritePassInWords c s = if v.Strays s then none else some (v.spritePass c s) := by
  obtain ⟨⟨hx, -⟩, -, hy⟩ := hs
  have hline : v.ly ≤ 153 := hv
  rw [spritePassInWords]
  by_cases hfar : 0x8000 ≤ v.ly - s.y
  · have hrow : signedWord 16 (v.ly - s.y) = none := if_neg (by omega)
    rw [if_pos (show v.Strays s from .inl hfar), hrow]
    rfl
  have hrow : signedWord 16 (v.ly - s.y) = some (v.ly - s.y) :=
    signedWord_of_bounds (by omega) (by omega)
  rw [hrow, Option.bind_eq_bind, Option.bind_some]
  by_cases hon : v.overlaps s = true
  · have haddress := v.spriteAddress_lt hon
    rw [if_pos (overlaps_iff.mp hon), spriteAddressInWords_eq hon, Option.bind_eq_bind,
      Option.bind_some, spritePass, if_pos hon]
    dsimp only
    rw [byteAt_of_lt _ (Nat.lt_of_succ_lt haddress), byteAt_of_lt _ haddress,
      Option.bind_eq_bind, Option.bind_some, Option.bind_eq_bind, Option.bind_some]
    simp only [strays_iff_of_overlaps hon]
    refine Canvas.stripInWords_eq hx (fun k hk cell => ?_) c
    rw [mirrorInWords_eq _ hk, Option.bind_some, rowColorInWords_eq _ _ (mirror_lt _ hk),
      Option.bind_some, claimInWords_eq v s (rowColor_lt _ _ _)]
    cases hasBit s.flags 0x20 <;> rfl
  · have hnear : ¬v.Strays s := fun h => h.elim hfar fun h => hon h.1
    rw [if_neg (mt overlaps_iff.mpr hon), spritePass, if_neg hon, if_neg hnear]
    rfl

/-- The passes of the sprites have a result unless one of the sprites strays. -/
theorem spritePassesInWords_eq (hv : v.ly ≤ lastLine) (hn : v.spriteCount ≤ v.slots.length)
    (hs : ∀ s ∈ v.slots, s.Storable) (c : Canvas) :
    v.spritePassesInWords c = if v.Astray then none else some (v.spritePasses c) := by
  rw [spritePassesInWords, spritePasses]
  by_cases hb : hasBit v.lcdc 0x02 = true
  · have hastray : (∃ s ∈ v.lineSprites, v.Strays s) ↔ v.Astray := (and_iff_right hb).symm
    rw [if_pos hb, if_pos hb, foldlM_range_getElem? hn]
    simp only [← hastray]
    exact foldlM_eq_ite (fun s hm c => spritePassInWords_eq hv (hs s (List.mem_of_mem_take hm)) c) c
  · have hnear : ¬v.Astray := fun h => hb h.1
    rw [if_neg hb, if_neg hb, if_neg hnear]

theorem paintedInWords_eq (hv : v.ly ≤ lastLine) (hn : v.spriteCount ≤ v.slots.length)
    (hs : ∀ s ∈ v.slots, s.Storable) :
    v.paintedInWords = if v.Astray then none else some v.painted := by
  rw [paintedInWords, blankPassInWords_eq, Option.bind_eq_bind, Option.bind_some,
    backdropPassesInWords_eq, Option.bind_some, spritePassesInWords_eq hv hn hs]
  rfl

end DotMatrix.Video
