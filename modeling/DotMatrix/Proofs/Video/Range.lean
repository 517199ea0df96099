import DotMatrix.Proofs.Memory
import DotMatrix.Proofs.Video.Painter
import DotMatrix.Proofs.Word
import DotMatrix.Video.Layout
import DotMatrix.Video.Registers

/-!
# The ranges of the video unit

Whatever is written and however many dots pass, the unit is at a place of the frame
that there is: the clock is short of the end of the mode, the vertical blank is exactly
what lies behind the screen, and sprites, transfers and shades keep to their ranges.
-/
namespace DotMatrix.Video

/-- The position of a sprite fits the words that it is stored in. -/
def Sprite.Storable (s : Sprite) : Prop :=
  (-0x8000 ≤ s.x ∧ s.x < 0x8000) ∧ (-0x8000 ≤ s.y ∧ s.y < 0x8000)

/-- What the place in the frame has no part in. -/
structure Content where
  cgb : Bool
  colorOutput : Bool
  transferDots : Nat
  spriteCount : Nat
  slots : List Sprite
  shades : Memory (screenWidth * screenHeight)

def content (v : Video) : Content where
  cgb := v.cgb
  colorOutput := v.colorOutput
  transferDots := v.transferDots
  spriteCount := v.spriteCount
  slots := v.slots
  shades := v.shades

structure Content.InRange (c : Content) : Prop where
  /-- A unit that decodes the colour features delivers its lines in colour. -/
  color : c.cgb = true → c.colorOutput = true
  transferMin : minTransferDots ≤ c.transferDots
  transferMax : c.transferDots ≤ maxTransferDots
  spriteCount : c.spriteCount ≤ spritesPerLine
  slots_length : c.slots.length = spritesPerLine
  slots : ∀ s ∈ c.slots, s.Storable
  shades : c.shades.All fun b => b.toNat < 4

structure InRange (v : Video) : Prop where
  content : v.content.InRange
  position : v.positionInRange = true
  line : v.modeMatchesLine = true

variable {v v' : Video}

theorem positionInRange_iff : v.positionInRange = true ↔ v.ly ≤ lastLine ∧ v.clock < v.modeDots := by
  simp only [positionInRange, Bool.and_eq_true, decide_eq_true_eq]

theorem modeMatchesLine_iff :
    v.modeMatchesLine = true ↔ (screenHeight ≤ v.ly ↔ v.mode = .vblank) := by
  by_cases hl : screenHeight ≤ v.ly <;> cases hm : v.mode <;> simp [modeMatchesLine, hl, hm]

theorem Content.InRange.modeDots_pos (h : v.content.InRange) : 0 < v.modeDots := by
  have hn : 172 ≤ v.transferDots := h.transferMin
  have hx : v.transferDots ≤ 289 := h.transferMax
  simp only [modeDots, scanDots, dotsPerLine]
  split <;> omega

/-- The unit is in range at the start of a mode on a line of the frame. -/
theorem Content.InRange.enter {c : Content} (h : c.InRange) (he : v.content = c)
    (hc : v.clock = 0) (hl : v.ly ≤ lastLine) (hm : screenHeight ≤ v.ly ↔ v.mode = .vblank) :
    v.InRange := by
  subst he
  exact ⟨h, positionInRange_iff.mpr ⟨hl, hc ▸ h.modeDots_pos⟩, modeMatchesLine_iff.mpr hm⟩

/-- Whether a unit is in range can be told from its content and its place. -/
theorem InRange.of_eq (h : v.InRange) (hc : v'.content = v.content) (hm : v'.mode = v.mode)
    (hk : v'.clock = v.clock) (hl : v'.ly = v.ly) : v'.InRange := by
  have ht : v'.transferDots = v.transferDots := congrArg Content.transferDots hc
  have hd : v'.modeDots = v.modeDots := by simp only [modeDots, hm, ht]
  refine ⟨hc ▸ h.content, ?_, ?_⟩
  · rw [positionInRange_iff, hl, hk, hd]
    exact positionInRange_iff.mp h.position
  · rw [modeMatchesLine_iff, hl, hm]
    exact modeMatchesLine_iff.mp h.line

theorem inRange_off {cgb colorOutput : Bool} (h : cgb = true → colorOutput = true) :
    InRange { cgb, colorOutput } := by
  have hc : (content { cgb, colorOutput }).InRange := by
    refine ⟨h, Nat.le_refl _, by change 172 ≤ 289; omega, Nat.zero_le _, rfl, ?_,
      Memory.all_fill (by decide)⟩
    intro s hs
    rw [List.eq_of_mem_replicate hs]
    exact ⟨⟨by decide, by decide⟩, by decide, by decide⟩
  exact hc.enter rfl rfl (Nat.zero_le _) ⟨nofun, nofun⟩

theorem InRange.installPalettes (h : v.InRange) : v.installPalettes.InRange :=
  h.of_eq rfl rfl rfl rfl

theorem InRange.boot (h : v.InRange) : v.boot.InRange := by
  have hb : InRange { v with
      lcdc := 0x91, stat := 0x80, bgp := 0xFC, ly := 0, mode := .scan, clock := 0
      coincidence := v.lyc == 0, statLine := false } :=
    h.content.enter rfl rfl (Nat.zero_le _) ⟨nofun, nofun⟩
  rw [Video.boot]
  simp only
  split
  · exact hb.installPalettes
  · exact hb

/-! ## The shades of a line -/

-- A frame's worth of writes is never to be unfolded.
attribute [local irreducible] Memory.write

theorem shadeOf_lt (palette : UInt8) (color : Nat) : shadeOf palette color < 4 :=
  Nat.mod_lt _ (Nat.zero_lt_succ _)

theorem colorShade_lt (color : UInt16) : (colorShade color).toNat < 4 := by
  have hl : (3 * (color.toNat % 32) + 6 * (color.toNat / 32 % 32) + color.toNat / 1024 % 32) / 10 * 4
      / 32 < 4 := by omega
  simp only [colorShade]
  generalize (3 * (color.toNat % 32) + 6 * (color.toNat / 32 % 32) + color.toNat / 1024 % 32) / 10 * 4
    / 32 = q at hl
  have hq : q = 0 ∨ q = 1 ∨ q = 2 ∨ q = 3 := by omega
  rcases hq with rfl | rfl | rfl | rfl <;> decide

theorem toNat_shadePixel {shade : Nat} (h : shade < 4) : (UInt16.ofNat shade).toUInt8.toNat < 4 := by
  rw [UInt16.toNat_toUInt8, UInt16.toNat_ofNat']
  omega

theorem pixelShade_lt (h : v.cgb = true → v.colorOutput = true) (x : Nat) :
    (v.pixelShade (v.pixel x)).toNat < 4 := by
  rw [pixelShade]
  split
  · exact colorShade_lt _
  · rename_i ho
    have hg : ¬v.cgb = true := fun hc => ho (h hc)
    have hbg (palette color : Nat) : (v.bgPixel palette color).toUInt8.toNat < 4 := by
      simp only [bgPixel, if_neg hg, if_neg ho]
      exact toNat_shadePixel (shadeOf_lt _ _)
    have hobj (flags : UInt8) (color : Nat) : (v.objPixel flags color).toUInt8.toNat < 4 := by
      simp only [objPixel, if_neg hg, if_neg ho]
      exact toNat_shadePixel (shadeOf_lt _ _)
    simp only [pixel]
    split
    · split
      · exact hbg _ _
      · exact hobj _ _
    · exact hbg _ _

theorem content_drawLine (v : Video) : v.drawLine.content = { v.content with
    shades := v.shades.write (screenWidth * v.ly)
      (v.scanline.pixels.toList.map v.pixelShade) } := by
  rw [drawLine_eq, content]
  rfl

theorem Content.InRange.drawLine (h : v.content.InRange) : v.drawLine.content.InRange := by
  have hb : ∀ b ∈ v.scanline.pixels.toList.map v.pixelShade, b.toNat < 4 := by
    intro b hb
    obtain ⟨p, hp, rfl⟩ := List.mem_map.mp hb
    simp only [scanline, Array.toList_ofFn, List.mem_ofFn] at hp
    obtain ⟨x, rfl⟩ := hp
    exact pixelShade_lt h.color x
  have hs := h.shades.write (screenWidth * v.ly) hb
  rw [content_drawLine]
  exact ⟨h.color, h.transferMin, h.transferMax, h.spriteCount, h.slots_length, h.slots, hs⟩

/-! ## The sprites of a line -/

theorem storable_object (v : Video) (i : Nat) : (v.object i).Storable := by
  have hx := (v.oam.get (4 * i + 1)).toNat_lt
  have hy := (v.oam.get (4 * i)).toNat_lt
  simp only [Sprite.Storable, object]
  omega

theorem storable_of_mem_selected {s : Sprite} (h : s ∈ v.selected) : s.Storable := by
  have hf := List.mem_of_mem_take h
  obtain ⟨i, _, rfl⟩ := List.mem_map.mp (List.mem_filter.mp hf).1
  exact storable_object v i

/-- The scan leaves as many slots as there were. -/
theorem length_slots_scanSprites (h : v.slots.length = spritesPerLine) :
    v.scanSprites.spriteCount ≤ spritesPerLine ∧ v.scanSprites.slots.length = spritesPerLine := by
  have hl : (v.selected.mergeSort v.before).length ≤ spritesPerLine := by
    rw [List.length_mergeSort]
    exact List.length_take_le _ _
  refine ⟨hl, ?_⟩
  simp only [Video.scanSprites, List.length_append, List.length_drop, h]
  omega

theorem storable_scanSprites (h : ∀ s ∈ v.slots, s.Storable) :
    ∀ s ∈ v.scanSprites.slots, s.Storable := by
  intro s hs
  rcases List.mem_append.mp hs with hm | hm
  · exact storable_of_mem_selected (List.mem_mergeSort.mp hm)
  · exact h s (List.mem_of_mem_drop hm)

theorem Content.InRange.scanSprites (h : v.content.InRange) : v.scanSprites.content.InRange := by
  obtain ⟨hcount, hlength⟩ := length_slots_scanSprites h.slots_length
  exact ⟨h.color, h.transferMin, h.transferMax, hcount, hlength, storable_scanSprites h.slots,
    h.shades⟩

/-! ## The passing of dots -/

theorem Content.InRange.transfer (h : v.content.InRange) :
    (content { v with transferDots := v.transferLength }).InRange := by
  have hm : minTransferDots ≤ v.transferLength := Nat.le_min.mpr ⟨by omega, by decide⟩
  exact ⟨h.color, hm, Nat.min_le_right _ _, h.spriteCount, h.slots_length, h.slots, h.shades⟩

theorem InRange.compareLine (h : v.InRange) : v.compareLine.InRange := by
  rw [Video.compareLine]
  split
  · exact h.of_eq rfl rfl rfl rfl
  · exact h

theorem InRange.updateStat (h : v.InRange) (flags : UInt8) : (v.updateStat flags).1.InRange :=
  h.of_eq rfl rfl rfl rfl

theorem InRange.nextMode {r : Run} (h : r.video.InRange) : r.nextMode.video.InRange := by
  have hl := (positionInRange_iff.mp h.position).1
  have hv := modeMatchesLine_iff.mp h.line
  have hc : (Video.content { r.video with clock := 0 }).InRange := h.content
  rw [Run.nextMode]
  simp only
  split
  · rename_i hm
    have hn : ¬screenHeight ≤ r.video.ly := fun hle => by simp [hv.mp hle] at hm
    exact hc.scanSprites.transfer.enter rfl rfl hl ⟨fun hle => absurd hle hn, nofun⟩
  · rename_i hm
    have hn : ¬screenHeight ≤ r.video.ly := fun hle => by simp [hv.mp hle] at hm
    exact hc.drawLine.enter rfl rfl hl ⟨fun hle => absurd hle hn, nofun⟩
  · rename_i hm
    have hn : r.video.ly < screenHeight := Nat.lt_of_not_le fun hle => by simp [hv.mp hle] at hm
    split
    · rename_i he
      have hle : r.video.ly + 1 ≤ lastLine := Nat.le_trans (Nat.le_of_eq he) (by decide)
      exact hc.enter rfl rfl hle ⟨fun _ => rfl, fun _ => Nat.le_of_eq he.symm⟩
    · rename_i hne
      have hlt : r.video.ly + 1 < screenHeight := Nat.lt_of_le_of_ne hn hne
      exact hc.enter rfl rfl (Nat.le_trans (Nat.le_of_lt hlt) (by decide))
        ⟨fun hle => absurd hle (Nat.not_le_of_lt hlt), nofun⟩
  · rename_i hm
    have hle : screenHeight ≤ r.video.ly := hv.mpr hm
    split
    · exact hc.enter rfl rfl (Nat.zero_le _) ⟨nofun, nofun⟩
    · rename_i hne
      have hlt : r.video.ly < lastLine := Nat.lt_of_le_of_ne hl hne
      exact hc.enter rfl rfl hlt ⟨fun _ => hm, fun _ => Nat.le_succ_of_le hle⟩

theorem InRange.tick {r : Run} (h : r.video.InRange) : r.tick.video.InRange := by
  rw [Run.tick]
  split
  · rename_i hlt
    have hl := (positionInRange_iff.mp h.position).1
    exact ⟨h.content, positionInRange_iff.mpr ⟨hl, hlt⟩, h.line⟩
  · exact h.nextMode.compareLine.updateStat r.nextMode.flags

theorem InRange.advance (h : v.InRange) (dots : Nat) (flags : UInt8) :
    (v.advance dots flags).video.InRange := by
  rw [Video.advance]
  split
  · exact repeat_invariant (P := fun r : Run => r.video.InRange) (fun _ => InRange.tick) dots h
  · exact h

/-! ## Writes -/

theorem InRange.writeVram (h : v.InRange) (address : UInt16) (value : UInt8) :
    (v.writeVram address value).InRange := by
  unfold Video.writeVram
  simp only
  split
  · exact h.of_eq rfl rfl rfl rfl
  · exact h.of_eq rfl rfl rfl rfl

theorem InRange.writeControl (h : v.InRange) (value flags : UInt8) :
    (v.writeControl value flags).1.InRange := by
  have hc := h.content
  unfold Video.writeControl
  simp only
  split
  · exact hc.enter rfl rfl (Nat.zero_le _) ⟨nofun, nofun⟩
  split
  · refine InRange.updateStat (InRange.compareLine ?_) flags
    exact hc.enter rfl rfl (Nat.zero_le _) ⟨nofun, nofun⟩
  · exact h.of_eq rfl rfl rfl rfl

theorem InRange.writeColor (h : v.InRange) (address : UInt16) (value : UInt8) :
    (v.writeColor address value).InRange := by
  rw [Video.writeColor]
  split
  case h_7 => exact h
  all_goals exact h.of_eq rfl rfl rfl rfl

theorem InRange.write (h : v.InRange) (address : UInt16) (value flags : UInt8) :
    (v.write address value flags).1.InRange := by
  rw [Video.write]
  split
  · exact h.writeControl value flags
  · refine InRange.updateStat ?_ flags
    exact h.of_eq rfl rfl rfl rfl
  case h_5 =>
    refine InRange.updateStat (InRange.compareLine ?_) flags
    exact h.of_eq rfl rfl rfl rfl
  case h_12 =>
    simp only
    split
    · exact h.writeColor address value
    · exact h
  all_goals exact h.of_eq rfl rfl rfl rfl

/-! ## Features -/

def features (v : Video) : Bool × Bool := (v.cgb, v.colorOutput)

@[simp] theorem features_boot (v : Video) : v.boot.features = v.features := by
  rw [boot]
  simp only
  split <;> rfl

theorem features_compareLine (v : Video) : v.compareLine.features = v.features := by
  rw [compareLine]
  split <;> rfl

theorem features_nextMode (r : Run) : r.nextMode.video.features = r.video.features := by
  rw [Run.nextMode]
  simp only
  split
  · rfl
  · rfl
  · split <;> rfl
  · split <;> rfl

theorem features_tick (r : Run) : r.tick.video.features = r.video.features := by
  rw [Run.tick]
  split
  · rfl
  · exact (features_compareLine _).trans (features_nextMode r)

@[simp] theorem features_advance (dots : Nat) (v : Video) (flags : UInt8) :
    (v.advance dots flags).video.features = v.features := by
  rw [advance]
  split
  · exact repeat_unchanged (g := fun r : Run => r.video.features) features_tick dots _
  · rfl

@[simp] theorem features_writeVram (v : Video) (address : UInt16) (value : UInt8) :
    (v.writeVram address value).features = v.features := by
  unfold writeVram
  simp only
  split <;> rfl

theorem features_writeControl (v : Video) (value flags : UInt8) :
    (v.writeControl value flags).1.features = v.features := by
  unfold writeControl
  simp only
  split
  · rfl
  split
  · exact features_compareLine _
  · rfl

theorem features_writeColor (v : Video) (address : UInt16) (value : UInt8) :
    (v.writeColor address value).features = v.features := by
  rw [writeColor]
  split <;> rfl

@[simp] theorem features_write (v : Video) (address : UInt16) (value flags : UInt8) :
    (v.write address value flags).1.features = v.features := by
  rw [write]
  split
  · exact v.features_writeControl value flags
  case h_5 => exact features_compareLine _
  case h_12 =>
    simp only
    split
    · exact v.features_writeColor address value
    · rfl
  all_goals rfl

end DotMatrix.Video
