import DotMatrix.Cartridge.Header

/-!
# Accepted cartridges

What the header of an accepted image promises of the cartridge.
-/
namespace DotMatrix.Cartridge

/-- What is known of a cartridge whose image was accepted. -/
structure Accepted (image : ByteArray) (c : Cartridge) : Prop where
  image : c.image = image
  romBanks : 0 < c.romBanks
  /-- The RAM of an MBC2 is its own. -/
  mbc2 : c.board.mapper = .mbc2 → c.ramSize = mbc2RamSize
  /-- Only an MBC3 has a clock. -/
  clock : c.board.clock = true → c.board.mapper = .mbc3

variable {image : ByteArray} {c : Cartridge}

theorem romBanks_pos {code : UInt8} {banks : Nat} (h : romBanks? code = some banks) :
    0 < banks := by
  rw [romBanks?] at h
  split at h
  · rw [← Option.some.inj h, Nat.shiftLeft_eq]
    exact Nat.mul_pos (by decide) (Nat.two_pow_pos _)
  · cases h

theorem mapper_of_clock {kind : UInt8} {board : Board} (h : board? kind = some board) :
    board.clock = true → board.mapper = .mbc3 := by
  unfold board? at h
  split at h <;> cases h <;> decide

theorem accepted_of_ofImage (h : ofImage image = .ok c) : Accepted image c := by
  simp only [ofImage, bind, Except.bind, pure, Except.pure, throw, throwThe,
    MonadExceptOf.throw] at h
  split at h
  · cases h
  split at h
  · cases h
  split at h
  · rename_i board hboard
    split at h
    · rename_i banks hbanks
      split at h
      · rename_i hmbc2
        cases h
        exact ⟨rfl, romBanks_pos hbanks, fun _ => rfl, mapper_of_clock hboard⟩
      · rename_i hmbc2
        split at h
        · cases h
          exact ⟨rfl, romBanks_pos hbanks, fun hm => absurd hm hmbc2, mapper_of_clock hboard⟩
        · cases h
    · cases h
  · cases h

/-- An image of zeros, but for a board with an MBC3, a clock and a battery, eight banks of ROM
and four of RAM in its header. Of the ROM not even the first bank is there. -/
def timedImage : ByteArray :=
  ⟨(List.replicate 0x147 (0 : UInt8) ++ [0x10, 0x02, 0x03, 0, 0, 0, 0xD2, 0, 0]).toArray⟩

def timed : Cartridge where
  image := timedImage
  title := titleOf timedImage
  kind := 0x10
  board := { mapper := .mbc3, battery := true, clock := true }
  romBanks := 8
  ramSize := 0x8000
  color := .none
  checksum := 0xD2

theorem ofImage_timed : ofImage timedImage = .ok timed := by
  have hsize : ¬ timedImage.size < headerEnd := by decide +kernel
  have hsum : headerChecksum timedImage = 0xD2 := by decide +kernel
  have hbyte : headerByte timedImage 0x14D = 0xD2 := by decide +kernel
  have hkind : headerByte timedImage 0x147 = 0x10 := by decide +kernel
  have hrom : headerByte timedImage 0x148 = 0x02 := by decide +kernel
  have hram : headerByte timedImage 0x149 = 0x03 := by decide +kernel
  have hcolor : colorOf timedImage = .none := by decide +kernel
  simp only [ofImage, hsize, hsum, hbyte, hkind, hrom, hram, hcolor]
  rfl

end DotMatrix.Cartridge
