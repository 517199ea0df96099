import DotMatrix.Proofs.Video.Composite
import DotMatrix.Proofs.Video.PaintWords
import DotMatrix.Proofs.Video.Position

/-!
# The video unit in words

The object scan, the drawing of a line and the passing of dots once more, in arithmetic that
may not go beyond its words. A unit whose slots are whole and that is at a place of its frame
has a result for every dot, but for the last dot of a transfer while a sprite strays; and a
line whose sprites were scanned from the object table has none that does.
-/
namespace DotMatrix.Video

open Width

variable {v w : Video} {r : Run} {s : Sprite}

/-! ## Drawing -/

def drawLineInWords (v : Video) : Option Video := do
  let c ← v.paintedInWords
  let row ← c.pixels.toList.mapM v.pixelShadeInWords
  let shades ← storeRow v.shades (screenWidth * v.ly) row
  return { v with
    buffers := c.toLineBuffers
    finished := v.finished.push { line := v.ly, format := v.format, pixels := c.pixels.toArray }
    shades
    windowLine := if v.bgEnabled && v.windowOnLine then v.windowLine + 1 else v.windowLine }

theorem drawLineInWords_eq (hv : v.ly < screenHeight) (hn : v.spriteCount ≤ v.slots.length)
    (hs : ∀ s ∈ v.slots, s.Storable) :
    v.drawLineInWords = if v.Astray then none else some v.drawLine := by
  have hline : v.ly ≤ lastLine := Nat.le_of_lt (Nat.lt_trans hv (by decide))
  have hshades : v.painted.pixels.toList.mapM v.pixelShadeInWords =
      some (v.painted.pixels.toList.map v.pixelShade) := by
    rw [funext v.pixelShadeInWords_eq]
    exact List.mapM_pure
  have hrow : screenWidth * v.ly + (v.painted.pixels.toList.map v.pixelShade).length ≤
      screenWidth * screenHeight := by
    rw [List.length_map, Vector.length_toList, ← Nat.mul_succ]
    exact Nat.mul_le_mul_left _ hv
  rw [drawLineInWords, paintedInWords_eq hline hn hs]
  split
  · rfl
  · rw [Option.bind_eq_bind, Option.bind_some, hshades, Option.bind_eq_bind, Option.bind_some,
      storeRow_of_le _ hrow,
      Option.bind_eq_bind, Option.bind_some]
    rfl

/-! ## The object scan -/

/-- The slots while they are filled. -/
structure Filling where
  slots : List Sprite
  count : Nat

namespace Filling

/-- A sprite takes the next slot, which must be there. -/
def put (f : Filling) (s : Sprite) : Option Filling :=
  if f.count < f.slots.length then
    some { slots := f.slots.set f.count s, count := f.count + 1 }
  else none

/-- The first slots are taken, and the others are as they were. -/
def taking (slots taken : List Sprite) : Filling where
  slots := taken ++ slots.drop taken.length
  count := taken.length

theorem put_taking {slots taken : List Sprite} (h : taken.length < slots.length) (s : Sprite) :
    (taking slots taken).put s = some (taking slots (taken ++ [s])) := by
  have hslot : taken.length < (taken ++ slots.drop taken.length).length := by
    rw [List.length_append, List.length_drop]
    omega
  have hset : (taken ++ slots.drop taken.length).set taken.length s =
      taken ++ [s] ++ slots.drop (taken ++ [s]).length := by
    rw [List.set_append_right _ _ (Nat.le_refl _), Nat.sub_self, List.drop_eq_getElem_cons h,
      List.set_cons_zero, List.length_append, List.append_assoc]
    rfl
  rw [put, taking, if_pos hslot, hset, taking, List.length_append]
  rfl

end Filling

def objectInWords (v : Video) (i : Nat) (y : Int) : Option Sprite := do
  let x ← signedWord 16 ((← byteAt v.oam (4 * i + 1)).toNat - 8)
  let tile ← byteAt v.oam (4 * i + 2)
  let flags ← byteAt v.oam (4 * i + 3)
  return { x, y, tile, flags, index := UInt8.ofNat i }

/-- One object of the scan. When all slots are taken it is over. -/
def pickInWords (v : Video) (f : Filling) (i : Nat) : Option Filling := do
  if spritesPerLine ≤ f.count then return f
  else
    let y ← signedWord 16 ((← byteAt v.oam (4 * i)).toNat - 16)
    let bottom ← signedWord 16 (y + v.spriteHeight)
    if y ≤ v.ly ∧ v.ly < bottom then f.put (← v.objectInWords i y) else return f

def scanSpritesInWords (v : Video) : Option Video := do
  let f ← (List.range objectCount).foldlM v.pickInWords { slots := v.slots, count := 0 }
  if f.count ≤ f.slots.length then
    return { v with
      slots := (f.slots.take f.count).mergeSort v.before ++ f.slots.drop f.count
      spriteCount := f.count }
  else none

def picked (v : Video) (n : Nat) : List Sprite :=
  (((List.range n).map v.object).filter v.overlaps).take spritesPerLine

theorem picked_succ (v : Video) (n : Nat) : v.picked (n + 1) =
    if spritesPerLine ≤ (v.picked n).length then v.picked n
    else if v.overlaps (v.object n) then v.picked n ++ [v.object n] else v.picked n := by
  rw [picked, picked, List.range_succ, List.map_append, List.filter_append]
  generalize ((List.range n).map v.object).filter v.overlaps = found
  by_cases hfull : spritesPerLine ≤ found.length
  · have hlength : (found.take spritesPerLine).length = spritesPerLine :=
      List.length_take_of_le hfull
    rw [List.take_append_of_le_length hfull, hlength, if_pos (Nat.le_refl _)]
  · have hlt : found.length < spritesPerLine := Nat.lt_of_not_le hfull
    rw [List.take_of_length_le (Nat.le_of_lt hlt), if_neg hfull]
    cases ho : v.overlaps (v.object n) with
    | true =>
      have hone : ([n].map v.object).filter v.overlaps = [v.object n] := by simp [ho]
      rw [if_pos rfl, hone, List.take_of_length_le]
      rw [List.length_append]
      exact hlt
    | false =>
      have hnone : ([n].map v.object).filter v.overlaps = [] := by simp [ho]
      rw [if_neg Bool.false_ne_true, hnone, List.append_nil,
        List.take_of_length_le (Nat.le_of_lt hlt)]

theorem pickInWords_eq {i : Nat} (hi : i < objectCount) (f : Filling) : v.pickInWords f i =
    if spritesPerLine ≤ f.count then some f
    else if v.overlaps (v.object i) then f.put (v.object i) else some f := by
  have hlast : 4 * i + 3 < 4 * objectCount := by omega
  have hheight := v.spriteHeight_bounds
  have hy := (v.oam.get (4 * i)).toNat_lt
  have hx := (v.oam.get (4 * i + 1)).toNat_lt
  have hobject : v.objectInWords i ((v.oam.get (4 * i)).toNat - 16) = some (v.object i) := by
    rw [objectInWords, byteAt_of_lt _ (by omega), byteAt_of_lt _ (by omega), byteAt_of_lt _ hlast,
      Option.bind_eq_bind, Option.bind_some, signedWord_of_bounds (by omega) (by omega)]
    rfl
  have hoverlaps : ((v.oam.get (4 * i)).toNat - 16 ≤ (v.ly : Int) ∧
      (v.ly : Int) < (v.oam.get (4 * i)).toNat - 16 + v.spriteHeight) ↔
      v.overlaps (v.object i) = true := by
    rw [overlaps, Bool.and_eq_true, decide_eq_true_eq, decide_eq_true_eq]
    rfl
  rw [pickInWords, byteAt_of_lt _ (by omega), Option.bind_eq_bind, Option.bind_some,
    signedWord_of_bounds (by omega) (by omega), Option.bind_eq_bind, Option.bind_some,
    signedWord_of_bounds (by omega) (by omega), Option.bind_some, hobject, Option.bind_eq_bind,
    Option.bind_some]
  simp only [hoverlaps]
  rfl

/-- The scan has filled the slots with the sprites that it has met. -/
theorem foldlM_pickInWords (h : v.slots.length = spritesPerLine) {n : Nat} (hn : n ≤ objectCount) :
    (List.range n).foldlM v.pickInWords { slots := v.slots, count := 0 } =
      some (.taking v.slots (v.picked n)) := by
  induction n with
  | zero => rfl
  | succ n ih =>
    have hcount : (Filling.taking v.slots (v.picked n)).count = (v.picked n).length := rfl
    rw [List.range_succ, List.foldlM_append, ih (Nat.le_of_succ_le hn), Option.bind_eq_bind,
      Option.bind_some, List.foldlM_cons, pickInWords_eq hn, hcount, picked_succ]
    by_cases hfull : spritesPerLine ≤ (v.picked n).length
    · rw [if_pos hfull, if_pos hfull]
      rfl
    · rw [if_neg hfull, if_neg hfull, Filling.put_taking (h ▸ Nat.lt_of_not_le hfull)]
      cases v.overlaps (v.object n) <;> rfl

theorem scanSpritesInWords_eq (h : v.slots.length = spritesPerLine) :
    v.scanSpritesInWords = some v.scanSprites := by
  have hfits : v.selected.length ≤ (v.selected ++ v.slots.drop v.selected.length).length := by
    rw [List.length_append]
    exact Nat.le_add_right _ _
  rw [scanSpritesInWords, foldlM_pickInWords h (Nat.le_refl _), Option.bind_eq_bind,
    Option.bind_some]
  change (if v.selected.length ≤ (v.selected ++ v.slots.drop v.selected.length).length then _ else _)
    = _
  rw [if_pos hfits, scanSprites, List.length_mergeSort]
  simp only [Filling.taking, List.take_left', List.drop_left']
  rfl

/-! ## Places -/

/-- The unit is at a place of its frame, and its slots are whole. -/
structure Placed (v : Video) : Prop where
  raster : v.raster.InFrame
  count : v.spriteCount ≤ spritesPerLine
  slots_length : v.slots.length = spritesPerLine
  slots : ∀ s ∈ v.slots, s.Storable

def lineup (v : Video) : Nat × List Sprite := (v.spriteCount, v.slots)

theorem Placed.of_lineup (h : v.Placed) (hr : w.raster.InFrame) (hl : w.lineup = v.lineup) :
    w.Placed := by
  obtain ⟨hcount, hslots⟩ := Prod.mk.inj hl
  exact ⟨hr, hcount ▸ h.count, hslots ▸ h.slots_length, hslots ▸ h.slots⟩

theorem lineup_settle (r : Run) : r.settle.video.lineup = r.video.lineup := by
  simp only [Run.settle, updateStat, compareLine]
  split <;> rfl

theorem lineup_nextMode (r : Run) : r.nextMode.video.lineup =
    if r.video.mode = .scan then r.video.scanSprites.lineup else r.video.lineup := by
  rw [Run.nextMode]
  dsimp only
  cases hm : r.video.mode with
  | scan => rfl
  | transfer => rfl
  | hblank =>
    dsimp only
    split <;> rfl
  | vblank =>
    dsimp only
    split <;> rfl

theorem Placed.nextMode (h : r.video.Placed) : r.nextMode.settle.video.Placed := by
  have hr := h.raster.nextMode.1
  have hl := (lineup_settle r.nextMode).trans (lineup_nextMode r)
  by_cases hm : r.video.mode = .scan
  · rw [if_pos hm] at hl
    obtain ⟨hcount, hslots⟩ := Prod.mk.inj hl
    obtain ⟨hc, hn⟩ := length_slots_scanSprites h.slots_length
    exact ⟨hr, hcount ▸ hc, hslots ▸ hn, hslots ▸ storable_scanSprites h.slots⟩
  · rw [if_neg hm] at hl
    exact h.of_lineup hr hl

theorem Placed.tick (h : r.video.Placed) : r.tick.video.Placed := by
  have hr := h.raster.tick.1
  rw [tick_eq] at hr ⊢
  split at hr
  · rename_i hlt
    rw [if_pos hlt]
    exact h.of_lineup hr rfl
  · rename_i hend
    rw [if_neg hend]
    exact h.nextMode

/-- The unit at the start of its mode. -/
theorem Placed.restart (h : v.Placed) : Placed { v with clock := 0 } :=
  h.of_lineup ⟨h.raster.line, h.raster.blank, Raster.modeDots_pos h.raster.transferMin
    h.raster.transferMax, h.raster.transferMin, h.raster.transferMax⟩ rfl

theorem Placed.line_lt (h : v.Placed) (hm : v.mode ≠ .vblank) : v.ly < screenHeight :=
  Nat.lt_of_not_le fun hle => hm (h.raster.blank.mp hle)

theorem Placed.modeDots_le (h : v.Placed) : v.modeDots ≤ dotsPerLine := by
  have hmax : v.transferDots ≤ 289 := h.raster.transferMax
  simp only [modeDots, scanDots, dotsPerLine]
  split <;> omega

/-! ## Sprites of a scan -/

/-- The sprites of the line were scanned from object tables. -/
def Scanned (v : Video) : Prop := ∀ s ∈ v.lineSprites, ∃ (u : Video) (i : Nat), u.object i = s

theorem scanned_of_lineup (h : w.lineup = v.lineup) (hv : v.Scanned) : w.Scanned := by
  obtain ⟨hcount, hslots⟩ := Prod.mk.inj h
  rw [Scanned, lineSprites, hcount, hslots]
  exact hv

theorem scanned_scanSprites (v : Video) : v.scanSprites.Scanned := by
  intro s hs
  obtain ⟨i, -, hi⟩ := mem_lineSprites_scanSprites.mp hs
  exact ⟨v, i, hi⟩

/-- An object is near every line of the frame. -/
theorem Scanned.not_astray (h : v.Scanned) (hv : v.ly ≤ lastLine) : ¬v.Astray := by
  rintro ⟨-, s, hs, hstrays⟩
  obtain ⟨u, i, rfl⟩ := h s hs
  have hline : v.ly ≤ 153 := hv
  have hx := (u.oam.get (4 * i + 1)).toNat_lt
  rcases hstrays with hfar | ⟨-, hfar⟩
  · simp only [object] at hfar
    omega
  · simp only [object] at hfar
    omega

/-- A transfer that begins has the sprites of a scan. -/
theorem scanned_of_mode_eq_transfer (h : r.nextMode.settle.video.mode = .transfer) :
    r.nextMode.settle.video.Scanned := by
  obtain ⟨length, -, hr⟩ := raster_nextMode r
  have hm : r.nextMode.settle.video.mode = (r.video.raster.next length).mode :=
    congrArg Raster.mode ((raster_settle _).trans hr)
  have hscan : r.video.mode = .scan := by
    rw [hm, Raster.next, raster] at h
    cases hv : r.video.mode with
    | scan => rfl
    | transfer => simp [hv] at h
    | hblank =>
      simp only [hv] at h
      split at h <;> cases h
    | vblank =>
      simp only [hv] at h
      split at h <;> cases h
  refine scanned_of_lineup ?_ (scanned_scanSprites r.video)
  rw [lineup_settle, lineup_nextMode, if_pos hscan]

/-! ## The passing of dots -/

def modeDotsInWords (v : Video) : Option Nat := do
  match v.mode with
  | .hblank => minus (← minus dotsPerLine scanDots) v.transferDots
  | _ => return v.modeDots

namespace Run

def nextModeInWords (r : Run) : Option Run := do
  let v := { r.video with clock := 0 }
  match v.mode with
  | .scan =>
    let v ← v.scanSpritesInWords
    return { r with video := { v with transferDots := v.transferLength, mode := .transfer } }
  | .transfer =>
    let v ← v.drawLineInWords
    return { r with video := { v with mode := .hblank }, hblanks := r.hblanks + 1 }
  | .hblank =>
    let ly ← word 8 (v.ly + 1)
    let v := { v with ly }
    if v.ly = screenHeight then
      return { r with
        video := { v with mode := .vblank, frames := v.frames + 1 }
        flags := Interrupt.vblank.raise r.flags true
        vblank := true }
    else return { r with video := v.beginLine }
  | .vblank =>
    if v.ly = lastLine then
      return { r with
        video := { v with ly := 0, windowLine := 0, windowReached := false }.beginLine }
    else
      let ly ← word 8 (v.ly + 1)
      return { r with video := { v with ly } }

def tickInWords (r : Run) : Option Run := do
  let length ← r.video.modeDotsInWords
  let clock ← word 32 (r.video.clock + 1)
  if clock < length then return { r with video := { r.video with clock } }
  else
    let r ← r.nextModeInWords
    return r.settle

def ticksInWords : Nat → Run → Option Run
  | 0, r => some r
  | n + 1, r => do ticksInWords n (← r.tickInWords)

end Run

def advanceInWords (dots : Nat) (v : Video) (flags : UInt8) : Option Run :=
  if v.enabled then Run.ticksInWords dots { video := v, flags } else some { video := v, flags }

theorem modeDotsInWords_eq (h : v.Placed) : v.modeDotsInWords = some v.modeDots := by
  have hmax : v.transferDots ≤ 289 := h.raster.transferMax
  have hline : dotsPerLine = 456 := rfl
  have hscan : scanDots = 80 := rfl
  rw [modeDotsInWords, modeDots]
  cases v.mode with
  | hblank =>
    dsimp only
    rw [minus_of_le (by omega), Option.bind_eq_bind, Option.bind_some, minus_of_le (by omega)]
  | vblank => rfl
  | scan => rfl
  | transfer => rfl

/-- The next mode begins, unless a line is to be drawn in which a sprite strays. -/
theorem nextModeInWords_eq (h : r.video.Placed) : r.nextModeInWords =
    if r.video.mode = .transfer ∧ r.video.Astray then none else some r.nextMode := by
  have hv := h.restart
  rw [Run.nextModeInWords, Run.nextMode]
  change _ = if Video.mode { r.video with clock := 0 } = .transfer ∧
    Astray { r.video with clock := 0 } then none else _
  -- What follows is about the unit at the start of its mode, whatever it has been before.
  generalize ({ r.video with clock := 0 } : Video) = v at hv
  have hlast : v.ly ≤ 153 := hv.raster.line
  have hly : word 8 (v.ly + 1) = some (v.ly + 1) := word_of_lt (by omega)
  dsimp only
  cases hm : v.mode with
  | scan =>
    simp only [scanSpritesInWords_eq hv.slots_length, reduceCtorEq, false_and, if_false]
    rfl
  | transfer =>
    have hline : v.ly < screenHeight := hv.line_lt (by simp [hm])
    have hcount : v.spriteCount ≤ v.slots.length := hv.slots_length ▸ hv.count
    simp only [true_and]
    rw [drawLineInWords_eq hline hcount hv.slots]
    split <;> rfl
  | hblank =>
    simp only [hly, reduceCtorEq, false_and, if_false, Option.bind_eq_bind, Option.bind_some]
    split <;> rfl
  | vblank =>
    simp only [hly, reduceCtorEq, false_and, if_false, Option.bind_eq_bind, Option.bind_some]
    split <;> rfl

theorem tickInWords_eq (h : r.video.Placed) : r.tickInWords =
    if r.video.mode = .transfer ∧ r.video.modeDots ≤ r.video.clock + 1 ∧ r.video.Astray then none
    else some r.tick := by
  have hclock : r.video.clock < r.video.modeDots := h.raster.clock
  have hdots : r.video.modeDots ≤ 456 := h.modeDots_le
  rw [Run.tickInWords, modeDotsInWords_eq h, Option.bind_eq_bind, Option.bind_some,
    word_of_lt (by omega), Option.bind_eq_bind, Option.bind_some, Run.tick]
  by_cases hlt : r.video.clock + 1 < r.video.modeDots
  · rw [if_pos hlt, if_pos hlt, if_neg fun hend => Nat.not_le_of_lt hlt hend.2.1]
    rfl
  · have hend := Nat.le_of_not_lt hlt
    rw [if_neg hlt, if_neg hlt, nextModeInWords_eq h]
    simp only [hend, true_and]
    split <;> rfl

/-- The last dot of a transfer has no result while a sprite strays, and neither has any number
of dots with it. The sprites of later lines are scanned before, and none of them strays. -/
theorem ticksInWords_eq (h : r.video.Placed) (n : Nat) : r.ticksInWords n =
    if r.video.mode = .transfer ∧ r.video.modeDots ≤ r.video.clock + n ∧ r.video.Astray then none
    else some (Nat.repeat Run.tick n r) := by
  have hclock : r.video.clock < r.video.modeDots := h.raster.clock
  induction n generalizing r with
  | zero =>
    rw [if_neg fun hend => Nat.not_le_of_lt hclock hend.2.1]
    rfl
  | succ n ih =>
    rw [Run.ticksInWords, tickInWords_eq h, repeat_succ_inner]
    by_cases hlt : r.video.clock + 1 < r.video.modeDots
    · have htick : r.tick = r.within 1 := by rw [tick_eq, if_pos hlt]
      have hw : (r.within 1).video.Placed := htick ▸ h.tick
      have hcount : r.video.clock + 1 + n = r.video.clock + (n + 1) := by omega
      rw [if_neg fun hend => Nat.not_le_of_lt hlt hend.2.1, htick, Option.bind_eq_bind,
        Option.bind_some, ih hw hlt, ← hcount]
      rfl
    · have hend := Nat.le_of_not_lt hlt
      have htick : r.tick = r.nextMode.settle := by rw [tick_eq, if_neg hlt]
      have hend' : r.video.modeDots ≤ r.video.clock + (n + 1) := by omega
      simp only [hend, hend', true_and]
      split
      · rfl
      · have hn := h.nextMode
        have hstray : ¬(r.nextMode.settle.video.mode = .transfer ∧
            r.nextMode.settle.video.modeDots ≤ r.nextMode.settle.video.clock + n ∧
            r.nextMode.settle.video.Astray) := fun hs =>
          (scanned_of_mode_eq_transfer hs.1).not_astray hn.raster.line hs.2.2
        rw [Option.bind_eq_bind, Option.bind_some, htick, ih hn hn.raster.clock, if_neg hstray]

theorem advanceInWords_eq (h : v.Placed) (dots : Nat) (flags : UInt8) :
    v.advanceInWords dots flags =
      if v.enabled = true ∧ v.mode = .transfer ∧ v.modeDots ≤ v.clock + dots ∧ v.Astray then none
      else some (v.advance dots flags) := by
  rw [advanceInWords, advance]
  cases v.enabled with
  | true =>
    simp only [if_true, true_and]
    exact ticksInWords_eq (r := { video := v, flags }) h dots
  | false => simp

/-! ## Writes -/

def writeVramInWords (v : Video) (address : UInt16) (value : UInt8) : Option Video := do
  let i := address.toNat % bankSize
  if v.secondBank then return { v with vram1 := ← storeAt v.vram1 i value }
  else return { v with vram0 := ← storeAt v.vram0 i value }

def writeColorInWords (v : Video) (address : UInt16) (value : UInt8) : Option Video := do
  match address.toNat with
  | 0xFF69 =>
    let bgColors ← storeAt v.bgColors (paletteEntry v.bgIndex) value
    return { v with bgColors, bgIndex := nextIndex v.bgIndex }
  | 0xFF6B =>
    let objColors ← storeAt v.objColors (paletteEntry v.objIndex) value
    return { v with objColors, objIndex := nextIndex v.objIndex }
  | _ => return v.writeColor address value

/-- Beside palette memory, a write takes the value apart by masks alone. -/
def writeInWords (v : Video) (address : UInt16) (value flags : UInt8) :
    Option (Video × UInt8) := do
  match address.toNat with
  | 0xFF69 | 0xFF6B => return (← only v.cgb (·.writeColorInWords address value) v, flags)
  | _ => return v.write address value flags

theorem writeVramInWords_eq (v : Video) (address : UInt16) (value : UInt8) :
    v.writeVramInWords address value = some (v.writeVram address value) := by
  have hi : address.toNat % bankSize < bankSize := Nat.mod_lt _ (by decide)
  rw [writeVramInWords, writeVram, storeAt_of_lt _ hi, storeAt_of_lt _ hi]
  split <;> rfl

theorem writeColorInWords_eq (v : Video) (address : UInt16) (value : UInt8) :
    v.writeColorInWords address value = some (v.writeColor address value) := by
  have hentry (index : UInt8) : paletteEntry index < 64 := Nat.mod_lt _ (by decide)
  rw [writeColorInWords]
  split
  · rename_i ha
    rw [writeColor, ha, storeAt_of_lt _ (hentry _)]
    rfl
  · rename_i ha
    rw [writeColor, ha, storeAt_of_lt _ (hentry _)]
    rfl
  · rfl

theorem writeInWords_eq (v : Video) (address : UInt16) (value flags : UInt8) :
    v.writeInWords address value flags = some (v.write address value flags) := by
  have hcolor : only v.cgb (·.writeColorInWords address value) v =
      some (if v.cgb then v.writeColor address value else v) :=
    only_eq (g := (writeColor · address value)) fun _ => v.writeColorInWords_eq address value
  rw [writeInWords]
  split
  · rename_i ha
    rw [hcolor, write, ha]
    rfl
  · rename_i ha
    rw [hcolor, write, ha]
    rfl
  · rfl

end DotMatrix.Video
