import DotMatrix.Proofs.Bus.Effect
import DotMatrix.Proofs.Cartridge.Time
import DotMatrix.Proofs.Video.Memory

/-!
# The memory behind the bus

The transfers read what lies below the echo of work RAM. Without a paced transfer the
passing of time leaves all of it as it is, and so do the registers but for those of the
banks, the boot ROM and the transfers.
-/
namespace DotMatrix.Bus

variable {b b' : Bus}

/-- What the transfers can read below the echo of work RAM. -/
structure Content where
  rom : UInt16 → UInt8
  videoRam : UInt16 → UInt8
  cartridgeRam : UInt16 → UInt8
  workRam : Memory workRamSize
  workBank : Nat

def content (b : Bus) : Content where
  rom := b.readRom
  videoRam := b.video.readVram
  cartridgeRam := b.slot.readRam
  workRam := b.workRam
  workBank := b.workBank

def echo : UInt16 := 0xE000

theorem decode_below (a : UInt16) (ha : a < echo) : Region.decode a = .rom ∨
    Region.decode a = .videoRam ∨ Region.decode a = .cartridgeRam ∨
    Region.decode a = .workRam (a.toNat % 0x2000) := by
  have hlt : a.toNat < 0xE000 := ha
  simp only [Region.decode]
  split
  · exact .inl rfl
  split
  · exact .inr (.inl rfl)
  split
  · exact .inr (.inr (.inl rfl))
  · rw [if_pos (by omega)]
    exact .inr (.inr (.inr rfl))

theorem readUnlocked_of_content (h : b'.content = b.content) {a : UInt16} (ha : a < echo) :
    b'.readUnlocked a = b.readUnlocked a := by
  simp only [content, Content.mk.injEq] at h
  obtain ⟨hrom, hvideo, hram, hwork, hbank⟩ := h
  rw [readUnlocked_eq, readUnlocked_eq]
  simp only [readRegion]
  obtain hd | hd | hd | hd := decode_below a ha
  · rw [hd]
    exact congrFun hrom a
  · rw [hd]
    exact congrFun hvideo a
  · rw [hd]
    exact congrFun hram a
  · rw [hd]
    simp only [workCell, hwork, hbank]

/-! ## Time -/

/-- No block moves with the horizontal blanks. -/
def Unpaced (b : Bus) : Prop := (b.blockTransfer.active && b.blockTransfer.paced) = false

theorem transferNext_of_unpaced (h : b.Unpaced) : b.transferNext = b := by
  rw [transferNext_eq, h]
  rfl

theorem repeat_transferNext_of_unpaced (h : b.Unpaced) (n : Nat) :
    Nat.repeat transferNext n b = b := by
  induction n with
  | zero => rfl
  | succ n ih => rw [Nat.repeat, ih, transferNext_of_unpaced h]

/-- The bus as the object transfer finds it in a portion of time: all but the clock of the
cartridge has moved. -/
def beforeObjects (cycles : Nat) (b : Bus) : Bus :=
  let moved := (b.advanceTimer cycles).advanceVideo (b.dotsIn cycles)
  { moved with sound := moved.sound.advance (b.dotsIn cycles) }

theorem advance_fst (cycles : Nat) (b : Bus) : (b.advance cycles).1 =
    { (b.beforeObjects cycles).advanceObjects cycles with
      slot := ((b.beforeObjects cycles).advanceObjects cycles).slot.advance (b.dotsIn cycles) } :=
  rfl

/-- Without paced blocks the video unit moves by itself. -/
theorem beforeObjects_of_unpaced (h : b.Unpaced) (cycles : Nat) :
    let requests := (b.timer.advance cycles b.requests).2
    let run := b.video.advance (b.dotsIn cycles) requests
    b.beforeObjects cycles =
      { b with
        timer := (b.timer.advance cycles b.requests).1
        video := run.video
        requests := run.flags
        sound := b.sound.advance (b.dotsIn cycles) } := by
  intro requests run
  have hvideo : (b.advanceTimer cycles).advanceVideo (b.dotsIn cycles) =
      { b.advanceTimer cycles with video := run.video, requests := run.flags } :=
    repeat_transferNext_of_unpaced
      (b := { b.advanceTimer cycles with video := run.video, requests := run.flags }) h _
  rw [beforeObjects]
  simp only [hvideo]
  rfl

theorem content_beforeObjects (h : b.Unpaced) (cycles : Nat) :
    (b.beforeObjects cycles).content = b.content := by
  have hv := Video.readVram_of_cells (Video.cells_advance (b.dotsIn cycles) b.video
    (b.timer.advance cycles b.requests).2)
  rw [beforeObjects_of_unpaced h]
  simp only [content, hv]
  rfl

theorem oam_beforeObjects (h : b.Unpaced) (cycles : Nat) :
    (b.beforeObjects cycles).video.oam = b.video.oam := by
  rw [beforeObjects_of_unpaced h]
  exact congrArg Video.Cells.oam (Video.cells_advance (b.dotsIn cycles) b.video _)

/-- The clock of the cartridge is no part of what can be read. -/
theorem content_slot_advance (dots : Nat) (b : Bus) :
    { b with slot := b.slot.advance dots }.content = b.content := by
  have hrom : readRom { b with slot := b.slot.advance dots } = b.readRom := by
    funext address
    rw [readRom, readRom]
    simp only [Slot.readRom_advance]
  simp only [content, hrom, Slot.readRam_advance]

/-! ## Registers -/

/-- The registers that begin a transfer, move a bank or uncover the cartridge. -/
def reserved : List UInt16 := [0xFF46, 0xFF4F, 0xFF50, 0xFF55, 0xFF70]

/-- The regions beside the memories, without those of the banks and the boot ROM. -/
def Region.Plain : Region → Prop
  | .joypad | .timer | .requests | .sound | .video | .speed | .blockTransfer | .highRam _
  | .enables | .nothing => True
  | _ => False

theorem plain_ite {p : Prop} [Decidable p] {r r' : Region} (h : p → r.Plain) (h' : r'.Plain) :
    (if p then r else r').Plain := by
  split
  · exact h ‹p›
  · exact h'

theorem plain_register {a : UInt16} (ha : a ∉ reserved) : (Region.register a.toNat).Plain := by
  have hne (r : UInt16) (hr : r ∈ reserved) : a.toNat ≠ r.toNat :=
    fun h => ha (UInt16.toNat_inj.mp h ▸ hr)
  have hboot : a.toNat ≠ 0xFF50 := hne 0xFF50 (by decide)
  have hwork : a.toNat ≠ 0xFF70 := hne 0xFF70 (by decide)
  rw [Region.register]
  iterate 7 refine plain_ite (fun _ => trivial) ?_
  refine plain_ite (fun h => absurd h hboot) ?_
  iterate 2 refine plain_ite (fun _ => trivial) ?_
  exact plain_ite (fun h => absurd h hwork) trivial

theorem plain_decode {a : UInt16} (ha : ¬a < 0xFF00) (hr : a ∉ reserved) :
    (Region.decode a).Plain := by
  have hge : ¬a.toNat < 0xFF00 := ha
  simp only [Region.decode]
  rw [if_neg (by omega), if_neg (by omega), if_neg (by omega), if_neg (by omega),
    if_neg (by omega), if_neg (by omega)]
  split
  · exact plain_register hr
  · split <;> exact trivial

theorem unpaced_transferRest (h : b.Unpaced) : b.transferRest = b :=
  repeat_transferNext_of_unpaced h _

/-- A write to the video unit that asks for no transfer. -/
theorem writeVideo_of_unpaced (h : b.Unpaced) {a : UInt16} (ha : a ≠ 0xFF46) (value : UInt8) :
    b.writeVideo a value =
      { b with
        video := (b.video.write a value b.requests).1
        requests := (b.video.write a value b.requests).2 } := by
  simp only [writeVideo, if_neg ha]
  split
  · exact unpaced_transferRest h
  · rfl

theorem paced_aim (t : BlockTransfer) (a : UInt16) (value : UInt8) :
    ((t.aim a value).active && (t.aim a value).paced) = (t.active && t.paced) := by
  unfold BlockTransfer.aim
  dsimp only
  split <;> rfl

/-- No transfer begins or goes on. -/
structure Steady (b b' : Bus) : Prop where
  objects : b'.objectTransfer = b.objectTransfer
  unpaced : b'.Unpaced
  speed : b'.doubleSpeed = b.doubleSpeed

/-- What the transfers read stays, and so does the object table. -/
structure Beside (b b' : Bus) : Prop extends Steady b b' where
  content : b'.content = b.content
  oam : b'.video.oam = b.video.oam

theorem Steady.refl (h : b.Unpaced) : Steady b b := ⟨rfl, h, rfl⟩

theorem Beside.refl (h : b.Unpaced) : Beside b b := ⟨.refl h, rfl, rfl⟩

theorem ne_of_reserved {a r : UInt16} (ha : a ∉ reserved) (hr : r ∈ reserved) : a ≠ r :=
  fun he => ha (he ▸ hr)

theorem beside_writeBlockTransfer (h : b.Unpaced) {a : UInt16} (ha : a ≠ 0xFF55)
    (value : UInt8) : Beside b (b.writeBlockTransfer a value) := by
  rw [writeBlockTransfer, if_neg ha]
  split
  · exact .refl h
  · exact ⟨⟨rfl, (paced_aim _ _ _).trans h, rfl⟩, rfl, rfl⟩

theorem beside_writeVideo (h : b.Unpaced) {a : UInt16} (ha : a ∉ reserved) (value : UInt8) :
    Beside b (b.writeVideo a value) := by
  have hc := Video.cells_write (ne_of_reserved ha (by decide)) b.video value b.requests
  rw [writeVideo_of_unpaced h (ne_of_reserved ha (by decide))]
  refine ⟨⟨rfl, h, rfl⟩, ?_, congrArg Video.Cells.oam hc⟩
  simp only [content, Video.readVram_of_cells hc]
  rfl

theorem beside_writeRegion (h : b.Unpaced) {a : UInt16} (ha : a ∉ reserved) {r : Region}
    (hr : r.Plain) (value : UInt8) : Beside b (b.writeRegion r a value) := by
  cases r with
  | video => exact beside_writeVideo h ha value
  | speed =>
    simp only [writeRegion]
    split
    · exact ⟨⟨rfl, h, rfl⟩, rfl, rfl⟩
    · exact .refl h
  | blockTransfer =>
    simp only [writeRegion]
    split
    · exact beside_writeBlockTransfer h (ne_of_reserved ha (by decide)) value
    · exact .refl h
  | rom => exact hr.elim
  | videoRam => exact hr.elim
  | cartridgeRam => exact hr.elim
  | workRam offset => exact hr.elim
  | objects index => exact hr.elim
  | bootSwitch => exact hr.elim
  | workBank => exact hr.elim
  | nothing => exact .refl h
  | _ => exact ⟨⟨rfl, h, rfl⟩, rfl, rfl⟩

theorem steady_writeRegion (h : b.Unpaced) {a : UInt16} (ha : a ∉ reserved) (r : Region)
    (value : UInt8) : Steady b (b.writeRegion r a value) := by
  cases r with
  | bootSwitch =>
    simp only [writeRegion]
    split <;> exact ⟨rfl, h, rfl⟩
  | workBank =>
    simp only [writeRegion]
    split <;> exact ⟨rfl, h, rfl⟩
  | rom => exact ⟨rfl, h, rfl⟩
  | videoRam => exact ⟨rfl, h, rfl⟩
  | cartridgeRam => exact ⟨rfl, h, rfl⟩
  | workRam offset => exact ⟨rfl, h, rfl⟩
  | objects index => exact ⟨rfl, h, rfl⟩
  | _ => exact (beside_writeRegion h ha (by exact trivial) value).toSteady

theorem steady_write (h : b.Unpaced) {a : UInt16} (ha : a ∉ reserved) (value : UInt8) :
    Steady b (b.write a value) := by
  simp only [write]
  split
  · exact .refl h
  split
  · exact steady_writeRegion h ha _ value
  · exact .refl h

/-- A write of the registers leaves what the transfers read, and the object table. -/
theorem beside_write (h : b.Unpaced) {a : UInt16} (hge : ¬a < 0xFF00) (ha : a ∉ reserved)
    (value : UInt8) : Beside b (b.write a value) := by
  rw [write_register hge]
  split
  · exact beside_writeRegion h ha (plain_decode hge ha) value
  · exact .refl h

end DotMatrix.Bus
