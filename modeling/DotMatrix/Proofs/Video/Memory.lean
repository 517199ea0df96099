import DotMatrix.Proofs.Video.Position

/-!
# The memory of the video unit

Dots and the registers leave video memory and the object table as they are, and only the
bank register moves what the bus sees of them. What the unit does is also not a matter of
the requests that are there already.
-/
namespace DotMatrix.Video

variable {v v' : Video} {r r' : Run}

/-- The memories, and the bank that the bus sees. -/
structure Cells where
  vram0 : Memory bankSize
  vram1 : Memory bankSize
  secondBank : Bool
  oam : Memory (4 * objectCount)

def cells (v : Video) : Cells where
  vram0 := v.vram0
  vram1 := v.vram1
  secondBank := v.secondBank
  oam := v.oam

theorem readVram_of_cells (h : v'.cells = v.cells) : v'.readVram = v.readVram := by
  simp only [cells, Cells.mk.injEq] at h
  obtain ⟨h0, h1, hb, -⟩ := h
  funext address
  rw [readVram, readVram, bank, bank, h0, h1, hb]

theorem readVram_writeVram (v : Video) (address : UInt16) (value : UInt8) :
    (v.writeVram address value).readVram address = value := by
  have hlt : address.toNat % bankSize < bankSize := Nat.mod_lt _ (by decide)
  rw [writeVram]
  split
  · rename_i hsecond
    rw [readVram, bank]
    simp only [hsecond]
    exact Memory.get_set_self _ _ hlt
  · rename_i hfirst
    rw [readVram, bank]
    simp only [hfirst]
    exact Memory.get_set_self _ _ hlt

/-! ## Dots -/

theorem cells_compareLine (v : Video) : v.compareLine.cells = v.cells := by
  rw [compareLine]
  split <;> rfl

theorem cells_nextMode (r : Run) : r.nextMode.video.cells = r.video.cells := by
  rw [Run.nextMode]
  simp only
  split
  · rfl
  · rfl
  · split <;> rfl
  · split <;> rfl

theorem cells_tick (r : Run) : r.tick.video.cells = r.video.cells := by
  rw [Run.tick]
  split
  · rfl
  · exact (cells_compareLine r.nextMode.video).trans (cells_nextMode r)

theorem cells_advance (dots : Nat) (v : Video) (flags : UInt8) :
    (v.advance dots flags).video.cells = v.cells := by
  rw [advance]
  split
  · exact repeat_unchanged (g := fun r : Run => r.video.cells) cells_tick dots _
  · rfl

theorem video_tick (h : r.video = r'.video) : r.tick.video = r'.tick.video := by
  have hnext : r.nextMode.video = r'.nextMode.video := by
    rw [Run.nextMode, Run.nextMode, h]
    simp only
    split
    · rfl
    · rfl
    · split <;> rfl
    · split <;> rfl
  have hsettle : r.nextMode.settle.video = r'.nextMode.settle.video := by
    change (r.nextMode.video.compareLine.updateStat r.nextMode.flags).1 =
      (r'.nextMode.video.compareLine.updateStat r'.nextMode.flags).1
    rw [hnext]
    rfl
  rw [Run.tick, Run.tick, h]
  split
  · rfl
  · exact hsettle

/-- The requests that are there do not move the unit. -/
theorem video_advance_flags (dots : Nat) (v : Video) (flags flags' : UInt8) :
    (v.advance dots flags).video = (v.advance dots flags').video := by
  rw [advance, advance]
  split
  · induction dots with
    | zero => rfl
    | succ dots ih => exact video_tick ih
  · rfl

theorem video_advance_add (v : Video) (a b : Nat) (flags flags' : UInt8) :
    (v.advance (a + b) flags).video = ((v.advance a flags).video.advance b flags').video := by
  rw [advance_add]
  exact video_advance_flags b _ _ _

/-! ## Registers -/

theorem cells_writeControl (v : Video) (value flags : UInt8) :
    (v.writeControl value flags).1.cells = v.cells := by
  simp only [writeControl]
  split
  · rfl
  split
  · exact cells_compareLine _
  · rfl

theorem cells_writeColor {address : UInt16} (ha : address ≠ 0xFF4F) (v : Video) (value : UInt8) :
    (v.writeColor address value).cells = v.cells := by
  rw [writeColor]
  split
  case h_1 h => exact absurd (UInt16.toNat_inj.mp h) ha
  all_goals rfl

theorem cells_write {address : UInt16} (ha : address ≠ 0xFF4F) (v : Video)
    (value flags : UInt8) : (v.write address value flags).1.cells = v.cells := by
  rw [write]
  split
  case h_1 => exact cells_writeControl v value flags
  case h_5 => exact cells_compareLine _
  case h_12 =>
    simp only
    split
    · exact cells_writeColor ha v value
    · rfl
  all_goals rfl

theorem video_writeControl (v : Video) (value flags flags' : UInt8) :
    (v.writeControl value flags).1 = (v.writeControl value flags').1 := by
  simp only [writeControl]
  split
  · rfl
  · split <;> rfl

theorem video_write_flags (v : Video) (address : UInt16) (value flags flags' : UInt8) :
    (v.write address value flags).1 = (v.write address value flags').1 := by
  rw [write, write]
  split
  case h_1 => exact video_writeControl v value flags flags'
  all_goals rfl

end DotMatrix.Video
