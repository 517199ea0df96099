import DotMatrix.Video.Scanline
import Mathlib.Data.List.Basic

/-!
# The passes over a line

What is painted is what each column tells by itself: the colour of the sprite that owns it,
or the backdrop where no sprite does or the backdrop hides it. Nothing is left of what the
buffers held before, as the blank pass reaches every column.
-/
namespace DotMatrix.Video

/-! ## One column by itself -/

def backdrop (v : Video) (x : Nat) : TilePixel :=
  if !v.bgEnabled then {}
  else if v.windowOnLine && v.wx.toNat ≤ x + 7 then
    v.tilePixel (mapBase (hasBit v.lcdc 0x40)) (x + 7 - v.wx.toNat) v.windowLine.toNat
  else
    v.tilePixel (mapBase (hasBit v.lcdc 0x08)) ((x + v.scx.toNat) % 256)
      ((v.ly + v.scy.toNat) % 256)

/-- The colour number of a sprite in column `x`; zero where it is transparent or
does not reach. -/
def spriteColor (v : Video) (s : Sprite) (x : Nat) : Nat :=
  let column := (x : Int) - s.x
  if v.overlaps s && 0 ≤ column && column < 8 then
    let tiles := v.bank (v.cgb && hasBit s.flags 0x08)
    let address := v.spriteAddress s
    let k := if hasBit s.flags 0x20 then column.toNat else 7 - column.toNat
    rowColor (tiles.get address) (tiles.get (address + 1)) k
  else 0

def owner? (v : Video) (x : Nat) : Option Sprite :=
  if hasBit v.lcdc 0x02 then v.lineSprites.find? fun s => v.spriteColor s x != 0
  else none

/-- The backdrop hides the sprite that owns its pixel. -/
def hides (v : Video) (backdrop : TilePixel) (s : Sprite) : Bool :=
  v.bgPriority && backdrop.color != 0 &&
    (hasBit s.flags 0x80 || (v.cgb && backdrop.priority))

def pixel (v : Video) (x : Nat) : UInt16 :=
  let backdrop := v.backdrop x
  match v.owner? x with
  | some s =>
    if v.hides backdrop s then v.bgPixel backdrop.palette backdrop.color
    else v.objPixel s.flags (v.spriteColor s x)
  | none => v.bgPixel backdrop.palette backdrop.color

def scanline (v : Video) : Scanline where
  line := v.ly
  format := v.format
  pixels := .ofFn fun x : Fin screenWidth => v.pixel x

variable {v : Video} {cell : Cell} {x y : Nat}

/-! ## Columns of a canvas -/

namespace Canvas

variable {c c' : Canvas}

theorem get_put_self (h : x < screenWidth) (c : Canvas) (cell : Cell) :
    (c.put x cell).get x = cell := by
  simp [get, put, h]

theorem get_put_of_ne (h : y ≠ x) (c : Canvas) (cell : Cell) :
    (c.put x cell).get y = c.get y := by
  simp [get, put, Vector.getElem_setIfInBounds_ne, h.symm]

/-- A canvas is its columns. -/
theorem eq_of_get (h : ∀ x < screenWidth, c.get x = c'.get x) : c = c' := by
  obtain ⟨⟨pixels, priority, colorZero⟩, claimed⟩ := c
  obtain ⟨⟨pixels', priority', colorZero'⟩, claimed'⟩ := c'
  have hcell (x : Nat) (hx : x < screenWidth) : pixels[x] = pixels'[x] ∧
      colorZero[x] = colorZero'[x] ∧ priority[x] = priority'[x] ∧ claimed[x] = claimed'[x] := by
    simpa [get, hx] using h x hx
  have hpixels : pixels = pixels' := Vector.ext fun x hx => (hcell x hx).1
  have hzero : colorZero = colorZero' := Vector.ext fun x hx => (hcell x hx).2.1
  have hpriority : priority = priority' := Vector.ext fun x hx => (hcell x hx).2.2.1
  have hclaimed : claimed = claimed' := Vector.ext fun x hx => (hcell x hx).2.2.2
  rw [hpixels, hzero, hpriority, hclaimed]

theorem get_sweep (hx : x < screenWidth) (paint : Nat → Cell) (columns : List Nat) (c : Canvas) :
    (c.sweep paint columns).get x = if x ∈ columns then paint x else c.get x := by
  induction columns generalizing c with
  | nil => rfl
  | cons y columns ih =>
    refine (ih (c.put y (paint y))).trans ?_
    by_cases hm : x ∈ columns
    · rw [if_pos hm, if_pos (List.mem_cons_of_mem y hm)]
    · by_cases hy : x = y
      · subst hy
        rw [if_neg hm, if_pos List.mem_cons_self, get_put_self hx]
      · rw [if_neg hm, if_neg (by simp [hm, hy]), get_put_of_ne hy]

theorem get_strip (hx : x < screenWidth) (paint : Nat → Cell → Cell) (left : Int)
    (width : Nat) (c : Canvas) : (c.strip paint left width).get x =
      if 0 ≤ x - left ∧ x - left < width then paint (x - left).toNat (c.get x) else c.get x := by
  rw [strip]
  induction width with
  | zero =>
    rw [if_neg (by omega)]
    rfl
  | succ width ih =>
    rw [List.range_succ, List.foldl_append, List.foldl_cons, List.foldl_nil]
    generalize (List.range width).foldl _ c = painted at ih ⊢
    by_cases hk : left + width = x
    · have hcolumn : (left + width).toNat = x := by omega
      have hwidth : (x - left).toNat = width := by omega
      rw [if_neg (by omega)] at ih
      rw [if_pos (by omega), if_pos (by omega), hcolumn, hwidth, get_put_self hx, ih]
    · have hne : ∀ h : 0 ≤ left + width, x ≠ (left + width).toNat := by omega
      have hiff : (0 ≤ x - left ∧ x - left < (width + 1 : Nat)) ↔
          0 ≤ x - left ∧ x - left < width := by omega
      simp only [hiff]
      split
      · rename_i hin
        rw [get_put_of_ne (hne hin.1), ih]
      · exact ih

end Canvas

/-! ## The passes -/

variable {c : Canvas}

theorem get_blankPass (hx : x < screenWidth) (c : Canvas) :
    (v.blankPass c).get x = { pixel := v.bgPixel 0 0 } := by
  rw [blankPass, Canvas.get_sweep hx, if_pos (List.mem_range.mpr hx)]

/-- Whatever the buffers held, the blank pass leaves nothing of it. -/
theorem blankPass_eq (c c' : Canvas) : v.blankPass c = v.blankPass c' := by
  apply Canvas.eq_of_get
  intro x hx
  rw [get_blankPass hx, get_blankPass hx]

theorem get_backgroundPass (hx : x < screenWidth) (c : Canvas) :
    (v.backgroundPass c).get x = v.tileCell (v.tilePixel (mapBase (hasBit v.lcdc 0x08))
      ((x + v.scx.toNat) % 256) ((v.ly + v.scy.toNat) % 256)) := by
  rw [backgroundPass, Canvas.get_sweep hx, if_pos (List.mem_range.mpr hx)]

theorem get_windowPass (hx : x < screenWidth) (c : Canvas) :
    (v.windowPass c).get x = if v.wx.toNat ≤ x + 7 then v.tileCell
      (v.tilePixel (mapBase (hasBit v.lcdc 0x40)) (x + 7 - v.wx.toNat) v.windowLine.toNat)
      else c.get x := by
  have hwindow : x ∈ List.range' (v.wx.toNat - 7) (screenWidth - (v.wx.toNat - 7)) ↔
      v.wx.toNat ≤ x + 7 := by
    rw [List.mem_range'_1]
    omega
  simp only [windowPass, Canvas.get_sweep hx, hwindow]

/-- The passes of the tiles leave the backdrop. -/
theorem get_backdropPasses (hx : x < screenWidth) (c : Canvas) :
    (v.backdropPasses (v.blankPass c)).get x = v.tileCell (v.backdrop x) := by
  rw [backdropPasses, backdrop]
  by_cases hb : v.bgEnabled = true
  · by_cases hw : v.windowOnLine = true
    · simp only [hb, hw, if_true, get_windowPass hx, get_backgroundPass hx]
      by_cases hc : v.wx.toNat ≤ x + 7
      · simp [hc]
      · simp [hc]
    · simp only [hb, hw, if_true, if_false, Bool.false_eq_true, Bool.not_true, Bool.false_and,
        get_backgroundPass hx]
  · rw [if_neg hb, if_pos (by simpa using hb)]
    exact get_blankPass hx c

theorem claim_of_transparent {color : Nat} (h : color = 0) (s : Sprite) (cell : Cell) :
    v.claim s color cell = cell := by
  rw [h]
  rfl

theorem claim_of_claimed (h : cell.claimed = true) (s : Sprite) (color : Nat) :
    v.claim s color cell = cell := by
  rw [claim, h, Bool.or_true, if_pos rfl]

/-- A column that an opaque sprite finds free, hidden or not. -/
theorem claim_of_free {color : Nat} (hc : color ≠ 0) (h : cell.claimed = false) (s : Sprite) :
    v.claim s color cell = { cell with
      claimed := true
      pixel :=
        if v.bgPriority && (v.bgEnabled && !cell.clear) &&
          (hasBit s.flags 0x80 || (v.cgb && cell.covers)) then cell.pixel
        else v.objPixel s.flags color } := by
  rw [claim, h, Bool.or_false, if_neg (by simpa using hc)]
  dsimp only
  split <;> rfl

/-- A sprite claims the columns where it is opaque. -/
theorem get_spritePass (hx : x < screenWidth) (s : Sprite) :
    (v.spritePass c s).get x = v.claim s (v.spriteColor s x) (c.get x) := by
  rw [spritePass, spriteColor]
  cases v.overlaps s with
  | false => exact (claim_of_transparent rfl s (c.get x)).symm
  | true =>
    have hwidth : ((8 : Nat) : Int) = 8 := rfl
    simp only [if_true, Bool.true_and, Canvas.get_strip hx, Bool.and_eq_true, decide_eq_true_eq,
      hwidth]
    by_cases hin : 0 ≤ (x : Int) - s.x ∧ (x : Int) - s.x < 8
    · rw [if_pos hin, if_pos hin]
    · rw [if_neg hin, if_neg hin, claim_of_transparent rfl]

/-- Sprites that are painted one after the other leave a free column to the first of them
that is opaque there. -/
theorem foldl_claim (sprites : List Sprite) (color : Sprite → Nat) (cell : Cell) :
    sprites.foldl (fun cell s => v.claim s (color s) cell) cell =
      if cell.claimed then cell
      else match sprites.find? (color · != 0) with
        | some s => v.claim s (color s) cell
        | none => cell := by
  induction sprites generalizing cell with
  | nil => exact (ite_self _).symm
  | cons s sprites ih =>
    rw [List.foldl_cons, ih, List.find?_cons]
    by_cases hc : color s = 0
    · rw [claim_of_transparent hc]
      simp [hc]
    · have hcolored : (color s != 0) = true := by simpa using hc
      rw [hcolored]
      cases h : cell.claimed with
      | true => simp only [claim_of_claimed h, h, if_true]
      | false => simp only [claim_of_free hc h, if_true, Bool.false_eq_true, if_false]

theorem get_foldl_spritePass (hx : x < screenWidth) (sprites : List Sprite) (c : Canvas) :
    (sprites.foldl v.spritePass c).get x =
      sprites.foldl (fun cell s => v.claim s (v.spriteColor s x) cell) (c.get x) := by
  induction sprites generalizing c with
  | nil => rfl
  | cons s sprites ih => rw [List.foldl_cons, List.foldl_cons, ih, get_spritePass hx]

/-- A sprite on the backdrop. -/
theorem pixel_claim_tileCell {s : Sprite} {color : Nat} (hc : color ≠ 0) (x : Nat) :
    (v.claim s color (v.tileCell (v.backdrop x))).pixel =
      if v.hides (v.backdrop x) s then v.bgPixel (v.backdrop x).palette (v.backdrop x).color
      else v.objPixel s.flags color := by
  -- Without a background there is no colour that could hide the sprite.
  have hshown : (v.bgEnabled && !((v.backdrop x).color == 0)) = ((v.backdrop x).color != 0) := by
    cases hb : v.bgEnabled with
    | true => rfl
    | false =>
      rw [backdrop, hb]
      rfl
  rw [claim_of_free hc rfl]
  simp only [tileCell, hshown, hides]
  rfl

/-- What is painted is what each column is by itself. -/
theorem pixel_painted (hx : x < screenWidth) : (v.painted.get x).pixel = v.pixel x := by
  rw [painted, spritePasses, pixel, owner?]
  split
  · rw [get_foldl_spritePass hx, get_backdropPasses hx, foldl_claim, if_neg (by simp [tileCell])]
    cases hf : v.lineSprites.find? fun s => v.spriteColor s x != 0 with
    | none => rfl
    | some s =>
      have hc : v.spriteColor s x ≠ 0 := by simpa using List.find?_some hf
      exact pixel_claim_tileCell hc x
  · rw [get_backdropPasses hx]
    rfl

/-- The line as it is painted. -/
theorem pixels_scanline (v : Video) : v.scanline.pixels = v.painted.pixels.toArray := by
  apply Array.ext
  · simp [scanline]
  · intro x hx _
    have hlt : x < screenWidth := by simpa [scanline] using hx
    have hpixel := v.pixel_painted hlt
    rw [Canvas.get, dif_pos hlt] at hpixel
    simpa [scanline] using hpixel.symm

theorem drawLine_eq (v : Video) : v.drawLine = { v with
    buffers := v.painted.toLineBuffers
    finished := v.finished.push v.scanline
    shades := v.shades.write (screenWidth * v.ly) (v.scanline.pixels.toList.map v.pixelShade)
    windowLine := if v.bgEnabled && v.windowOnLine then v.windowLine + 1 else v.windowLine } := by
  have hline : { line := v.ly, format := v.format, pixels := v.scanline.pixels } = v.scanline := by
    rw [scanline]
  rw [← hline, pixels_scanline]
  rfl

/-- No line shows anything of the one before. -/
theorem painted_of_buffers (v : Video) (buffers : LineBuffers) :
    { v with buffers }.painted = v.painted := by
  have hblank : v.blankPass { toLineBuffers := buffers } =
      v.blankPass { toLineBuffers := v.buffers } := blankPass_eq _ _
  exact congrArg (fun c => v.spritePasses (v.backdropPasses c)) hblank

end DotMatrix.Video
