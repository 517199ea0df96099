import DotMatrix.Proofs.Cartridge.History
import DotMatrix.Proofs.Cartridge.Time
import Mathlib.Data.Nat.Bitwise

/-!
# The banks that a history selects

The registers of a controller hold what was last written to each of them, whatever else was
done with the cartridge. So the banks in the two ROM windows are a function of a few writes.
-/
namespace DotMatrix

namespace Controller

def withoutClock : Controller → Controller
  | .mbc3 r => .mbc3 { r with clock? := none }
  | c => c

@[simp] theorem withoutClock_mapClock (f : Clock → Clock) (c : Controller) :
    (c.mapClock f).withoutClock = c.withoutClock := by
  cases c <;> rfl

@[simp] theorem lowBank_withoutClock (c : Controller) : c.withoutClock.lowBank = c.lowBank := by
  cases c <;> rfl

@[simp] theorem highBank_withoutClock (c : Controller) :
    c.withoutClock.highBank = c.highBank := by
  cases c <;> rfl

@[simp] theorem window_withoutClock (c : Controller) : c.withoutClock.window = c.window := by
  cases c <;> rfl

/-- A write programs the registers in the same way with and without a clock. -/
theorem withoutClock_program (motor : Bool) (c : Controller) (address : UInt16) (value : UInt8) :
    (c.program motor address value).withoutClock = c.withoutClock.program motor address value := by
  cases c with
  | mbc3 r =>
    simp only [program, withoutClock, Mbc3.program]
    split
    · rfl
    split
    · rfl
    split <;> rfl
  | _ => rfl

end Controller

namespace Slot

open Controller

def lastBetween (first last : Nat) (initial : UInt8) (history : List Act) : UInt8 :=
  lastWritten (within first last) initial history

/-- An MBC2 tells its two registers apart by bit 8 of the address. -/
def mbc2Register (upper : Bool) (address : UInt16) : Bool :=
  within 0x0000 0x3FFF address && (address &&& 0x0100 != 0) == upper

/-- The registers of a board's controller as they were last written. -/
def programmed (board : Board) (history : List Act) : Controller :=
  match board.mapper with
  | .none => .plain
  | .mbc1 => .mbc1 {
      bank := nonZero (lastBetween 0x2000 0x3FFF 1 history &&& 0x1F)
      high := lastBetween 0x4000 0x5FFF 0 history &&& 0x03
      advanced := lastBetween 0x6000 0x7FFF 0 history &&& 0x01 != 0
      ramEnabled := enables (lastBetween 0x0000 0x1FFF 0 history) }
  | .mbc2 => .mbc2 {
      bank := nonZero (lastWritten (mbc2Register true) 1 history &&& 0x0F)
      ramEnabled := enables (lastWritten (mbc2Register false) 0 history) }
  | .mbc3 => .mbc3 {
      bank := nonZero (lastBetween 0x2000 0x3FFF 1 history &&& 0x7F)
      select := lastBetween 0x4000 0x5FFF 0 history
      ramEnabled := enables (lastBetween 0x0000 0x1FFF 0 history) }
  | .mbc5 => .mbc5 {
      bank := 0x100 * (lastBetween 0x3000 0x3FFF 0 history &&& 0x01).toUInt16 |||
        (lastBetween 0x2000 0x2FFF 1 history).toUInt16
      ramBank := lastBetween 0x4000 0x5FFF 0 history &&& if board.rumble then 0x07 else 0x0F
      ramEnabled := lastBetween 0x0000 0x1FFF 0 history == 0x0A
      rumble := board.rumble && lastBetween 0x4000 0x5FFF 0 history &&& 0x08 != 0 }

variable {board : Board} {history : List Act} {address : UInt16} {value : UInt8}

theorem within_iff {first last : Nat} :
    within first last address = true ↔ first ≤ address.toNat ∧ address.toNat ≤ last := by
  simp [within]

theorem lastWritten_writeRom (register : UInt16 → Bool) (initial : UInt8) :
    lastWritten register initial (.writeRom address value :: history) =
      if register address then value else lastWritten register initial history := by
  rw [lastWritten_cons, leaves?_writeRom]
  split <;> rfl

theorem and_one_eq (v : UInt8) : v &&& 0x01 = 0 ∨ v &&& 0x01 = 1 := by
  have h : (v &&& 0x01).toNat < 2 ^ 1 := toNat_and_mask_lt 1 rfl
  rw [← UInt8.toNat_inj, ← UInt8.toNat_inj]
  change _ = 0 ∨ _ = 1
  omega

theorem and_one_ne_zero (v : UInt8) : (v &&& 0x01 != 0) = true ↔ v.toNat % 2 = 1 := by
  have hmod : (v &&& 0x01).toNat = v.toNat % 2 := Nat.and_one_is_mod _
  rcases and_one_eq v with h | h <;> rw [h] at hmod ⊢ <;> simp_all

/-- A ninth bit and the byte below it do not disturb each other. -/
theorem and_ninth_bit (high low : UInt8) :
    (0x100 * (high &&& 0x01).toUInt16 ||| low.toUInt16) &&& 0x100 =
        0x100 * (high &&& 0x01).toUInt16 ∧
      (0x100 * (high &&& 0x01).toUInt16 ||| low.toUInt16) &&& 0xFF = low.toUInt16 := by
  have hlow := low.toNat_lt
  have hbit : low.toNat &&& 256 = 0 := by
    rw [Nat.and_comm, show 256 = 2 ^ 8 from rfl, Nat.two_pow_and, Nat.testBit_lt_two_pow hlow]
    rfl
  have hmask : low.toNat &&& 255 = low.toNat := by
    rw [show 255 = 2 ^ 8 - 1 from rfl, Nat.and_two_pow_sub_one_eq_mod, Nat.mod_eq_of_lt hlow]
  rcases and_one_eq high with h | h <;> rw [h, ← UInt16.toNat_inj, ← UInt16.toNat_inj]
  · simp [hbit, hmask]
  · simp [Nat.and_or_distrib_right, hbit, hmask]

/-- A write programs what was programmed before. -/
theorem programmed_writeRom (ha : within 0x0000 0x7FFF address = true) :
    programmed board (.writeRom address value :: history) =
      (programmed board history).program board.rumble address value := by
  have h₂ : address < 0x2000 ↔ address.toNat < 0x2000 := UInt16.lt_iff_toNat_lt
  have h₃ : address < 0x3000 ↔ address.toNat < 0x3000 := UInt16.lt_iff_toNat_lt
  have h₄ : address < 0x4000 ↔ address.toNat < 0x4000 := UInt16.lt_iff_toNat_lt
  have h₄' : 0x4000 ≤ address ↔ 0x4000 ≤ address.toNat := UInt16.le_iff_toNat_le
  have h₆ : address < 0x6000 ↔ address.toNat < 0x6000 := UInt16.lt_iff_toNat_lt
  rw [within_iff] at ha
  rw [programmed, programmed]
  cases board.mapper with
  | none => rfl
  | mbc1 =>
    simp only [lastBetween, lastWritten_writeRom, within_iff, program, Mbc1.program, h₂, h₄, h₆]
    grind
  | mbc2 =>
    simp only [lastWritten_writeRom, mbc2Register, Bool.and_eq_true, within_iff, program,
      Mbc2.program, h₄']
    grind
  | mbc3 =>
    simp only [lastBetween, lastWritten_writeRom, within_iff, program, Mbc3.program, h₂, h₄, h₆]
    grind
  | mbc5 =>
    obtain ⟨hhigh, hlow⟩ := and_ninth_bit (lastBetween 0x3000 0x3FFF 0 history)
      (lastBetween 0x2000 0x2FFF 1 history)
    simp only [lastBetween] at hhigh hlow
    simp only [lastBetween, lastWritten_writeRom, within_iff, program, Mbc5.program, h₂, h₃, h₄,
      h₆, hhigh, hlow]
    cases board.rumble <;> grind [UInt16.or_comm]

theorem programmed_nil (now : Nat) : programmed board [] = (ofBoard board now).withoutClock := by
  rw [programmed, ofBoard]
  cases board.mapper with
  | mbc5 => cases board.rumble <;> rfl
  | _ => rfl

theorem withoutClock_writeRam (s : Slot) (address : UInt16) (value : UInt8) :
    (s.writeRam address value).controller.withoutClock = s.controller.withoutClock := by
  rw [writeRam]
  split
  · rfl
  · rw [controller_setRamByte]
  · rw [controller_setRamByte]
  · split
    · exact withoutClock_mapClock _ _
    · rfl

theorem withoutClock_setClock (s : Slot) (days hours minutes seconds now : Nat) :
    (s.setClock days hours minutes seconds now).1.controller.withoutClock =
      s.controller.withoutClock := by
  rw [setClock]
  split
  · exact withoutClock_mapClock _ _
  · rfl

theorem withoutClock_reset (c : Cartridge) (s : Slot) :
    (s.reset c).controller.withoutClock = (ofBoard c.board 0).withoutClock := by
  rw [reset]
  dsimp only
  split
  · exact withoutClock_mapClock _ _
  · rfl

/-- The registers hold what was last written to them. -/
theorem withoutClock_replay (c : Cartridge) (now : UInt64)
    (h : ∀ act ∈ history, act.decoded = true) :
    (replay c now history).controller.withoutClock = programmed c.board history := by
  induction history with
  | nil => exact (programmed_nil now.toNat).symm
  | cons act before ih =>
    have hbefore := ih fun a ha => h a (List.mem_cons_of_mem _ ha)
    have hact := h act List.mem_cons_self
    rw [replay]
    cases act with
    | writeRom address value =>
      rw [programmed_writeRom hact, ← hbefore, ← motor_replay c now before]
      exact withoutClock_program _ _ _ _
    | writeRam address value => exact (withoutClock_writeRam _ _ _).trans hbefore
    | pass dots =>
      rw [Act.apply, advance_eq, withoutClock_mapClock]
      exact hbefore
    | setClock days hours minutes seconds now =>
      exact (withoutClock_setClock _ _ _ _ _ _).trans hbefore
    | reset => exact (withoutClock_reset c _).trans (programmed_nil 0).symm
    | takeTouched => exact hbefore

/-! ## The ROM -/

/-- The bank in the low window, before it is cut to the banks there are. -/
def lowBankOf (mapper : Mapper) (history : List Act) : Nat :=
  match mapper with
  | .mbc1 =>
    if (lastBetween 0x6000 0x7FFF 0 history).toNat % 2 = 1 then
      (lastBetween 0x4000 0x5FFF 0 history &&& 0x03).toNat <<< 5
    else 0
  | _ => 0

/-- The bank in the high window, before it is cut to the banks there are. -/
def highBankOf (mapper : Mapper) (history : List Act) : Nat :=
  match mapper with
  | .none => 1
  | .mbc1 =>
    (lastBetween 0x4000 0x5FFF 0 history &&& 0x03).toNat <<< 5 |||
      max 1 (lastBetween 0x2000 0x3FFF 1 history &&& 0x1F).toNat
  | .mbc2 => max 1 (lastWritten (mbc2Register true) 1 history &&& 0x0F).toNat
  | .mbc3 => max 1 (lastBetween 0x2000 0x3FFF 1 history &&& 0x7F).toNat
  | .mbc5 =>
    (lastBetween 0x3000 0x3FFF 0 history &&& 0x01).toNat <<< 8 |||
      (lastBetween 0x2000 0x2FFF 1 history).toNat

theorem toNat_nonZero (v : UInt8) : (nonZero v).toNat = max 1 v.toNat := by
  rw [nonZero]
  split
  · rename_i h
    rw [h]
    rfl
  · rename_i h
    have hv : v.toNat ≠ 0 := fun h' => h (UInt8.toNat_inj.mp h')
    omega

theorem lowBank_programmed (board : Board) (history : List Act) :
    (programmed board history).lowBank = lowBankOf board.mapper history := by
  cases hm : board.mapper with
  | mbc1 =>
    simp only [programmed, hm, Controller.lowBank, lowBankOf, and_one_ne_zero, Nat.shiftLeft_eq]
  | _ => simp [programmed, hm, Controller.lowBank, lowBankOf]

theorem highBank_programmed (board : Board) (history : List Act) :
    (programmed board history).highBank = highBankOf board.mapper history := by
  cases hm : board.mapper with
  | none => simp [programmed, hm, Controller.highBank, highBankOf]
  | mbc1 =>
    have hbank : (nonZero (lastBetween 0x2000 0x3FFF 1 history &&& 0x1F)).toNat < 2 ^ 5 :=
      toNat_nonZero_lt (toNat_and_mask_lt 5 rfl) (by decide)
    simp only [programmed, hm, Controller.highBank, highBankOf]
    rw [← toNat_nonZero, ← Nat.shiftLeft_add_eq_or_of_lt hbank, Nat.shiftLeft_eq]
  | mbc2 => simp [programmed, hm, Controller.highBank, highBankOf, toNat_nonZero]
  | mbc3 => simp [programmed, hm, Controller.highBank, highBankOf, toNat_nonZero]
  | mbc5 =>
    have hshift (b : UInt8) : (0x100 * (b &&& 0x01).toUInt16).toNat = (b &&& 0x01).toNat <<< 8 := by
      rcases and_one_eq b with h | h <;> rw [h] <;> rfl
    simp only [programmed, hm, Controller.highBank, highBankOf, UInt16.toNat_or, hshift,
      UInt8.toNat_toUInt16]

/-- A byte of an image, past whose end all bits are one. -/
def imageByte (image : ByteArray) (i : Nat) : UInt8 := image.data[i]?.getD 0xFF

theorem romByte_eq (s : Slot) (bank : Nat) (address : UInt16) : s.romByte bank address =
    imageByte s.rom (bank * 0x4000 + (address &&& 0x3FFF).toNat) := by
  have haddress : (address &&& 0x3FFF).toNat = address.toNat % romBankSize := by
    rw [UInt16.toNat_and]
    exact Nat.and_two_pow_sub_one_eq_mod address.toNat 14
  rw [haddress, romByte, imageByte]
  split
  · rename_i h
    exact (congrArg (·.getD 0xFF) (Array.getElem?_eq_getElem h)).symm
  · rename_i h
    exact (congrArg (·.getD 0xFF) (Array.getElem?_eq_none (Nat.le_of_not_lt h))).symm

theorem lowBank_replay (c : Cartridge) (now : UInt64) (h : ∀ act ∈ history, act.decoded = true) :
    (replay c now history).lowBank = lowBankOf c.board.mapper history % c.romBanks := by
  rw [lowBank, romBanks_replay, ← lowBank_withoutClock, withoutClock_replay c now h,
    lowBank_programmed]

theorem highBank_replay (c : Cartridge) (now : UInt64) (h : ∀ act ∈ history, act.decoded = true) :
    (replay c now history).highBank = highBankOf c.board.mapper history % c.romBanks := by
  rw [highBank, romBanks_replay, ← highBank_withoutClock, withoutClock_replay c now h,
    highBank_programmed]

/-- Whatever was done with an accepted cartridge, however long its image is, each of the two
ROM windows shows the bank that the last writes to a few registers select. -/
theorem readRom_replay {image : ByteArray} {c : Cartridge} (hc : Cartridge.ofImage image = .ok c)
    (now : UInt64) (h : ∀ act ∈ history, act.decoded = true) :
    0 < c.romBanks ∧ ∀ address : UInt16,
      (replay c now history).readRom address = imageByte image
        ((if address < 0x4000 then lowBankOf c.board.mapper history
          else highBankOf c.board.mapper history) % c.romBanks * 0x4000 +
            (address &&& 0x3FFF).toNat) := by
  have haccepted := Cartridge.accepted_of_ofImage hc
  refine ⟨haccepted.romBanks, fun address => ?_⟩
  rw [readRom, romByte_eq, rom_replay, haccepted.image]
  split
  · rw [lowBank_replay c now h]
  · rw [highBank_replay c now h]

/-- The last write selects bank 8, and there are eight banks: the high window shows the header
of the first. A write of zero selects bank 1, of which the image has nothing. -/
theorem readRom_replay_timed :
    let history : List Act := [.pass 70224, .writeRam 0xA000 7, .writeRom 0x3FFF 0x88,
      .writeRom 0x2000 0x03]
    (∀ act ∈ history, act.decoded = true) ∧
      (replay .timed 0 history).readRom 0x4147 = 0x10 ∧
      (replay .timed 0 (.writeRom 0x2000 0x80 :: history)).readRom 0x4147 = 0xFF := by
  intro history
  have h : ∀ act ∈ Act.writeRom 0x2000 0x80 :: history, act.decoded = true := by decide
  have h' : ∀ act ∈ history, act.decoded = true := by decide
  obtain ⟨_, hread⟩ := readRom_replay Cartridge.ofImage_timed 0 h'
  obtain ⟨_, hzero⟩ := readRom_replay Cartridge.ofImage_timed 0 h
  refine ⟨h', ?_, ?_⟩
  · rw [hread]
    decide +kernel
  · rw [hzero]
    decide +kernel

end Slot

end DotMatrix
