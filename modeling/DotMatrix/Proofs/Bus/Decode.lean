import DotMatrix.Bus.Read
import DotMatrix.Bus.Write

/-!
# One meaning for each address

Reading and writing find the region of an address by tables of their own. The tables agree
with one decoding of addresses, but for the switch of the boot ROM, which can only be written.
-/
namespace DotMatrix.Bus

namespace Region

/-- The registers between the object table and the high RAM. -/
def register (a : Nat) : Region :=
  if a = 0xFF00 then .joypad
  else if 0xFF04 ≤ a ∧ a ≤ 0xFF07 then .timer
  else if a = 0xFF0F then .requests
  else if 0xFF10 ≤ a ∧ a ≤ 0xFF3F then .sound
  else if 0xFF40 ≤ a ∧ a ≤ 0xFF4B then .video
  else if a = 0xFF4D then .speed
  else if a = 0xFF4F then .video
  else if a = 0xFF50 then .bootSwitch
  else if 0xFF51 ≤ a ∧ a ≤ 0xFF55 then .blockTransfer
  else if 0xFF68 ≤ a ∧ a ≤ 0xFF6C then .video
  else if a = 0xFF70 then .workBank
  else .nothing

/-- What an address means. Work RAM repeats itself after 0x2000 addresses. -/
def decode (address : UInt16) : Region :=
  let a := address.toNat
  if a < 0x8000 then .rom
  else if a < 0xA000 then .videoRam
  else if a < 0xC000 then .cartridgeRam
  else if a < 0xFE00 then .workRam (a % 0x2000)
  else if a < 0xFEA0 then .objects (a - 0xFE00)
  else if a < 0xFF00 then .nothing
  else if a < 0xFF80 then register a
  else if a < 0xFFFF then .highRam (a - 0xFF80)
  else .enables

variable {address : UInt16}

/-- Below the object table the tables part the two windows of work RAM. -/
theorem tables_of_lt (h : address.toNat < 0xFE00) :
    ofRead address = decode address ∧ ofWrite address = decode address := by
  simp only [ofRead, ofWrite, decode]
  generalize address.toNat = a at h ⊢
  obtain hcartridge | hwork := Nat.lt_or_ge a 0xC000
  · obtain hrom | hbehind := Nat.lt_or_ge a 0x8000
    · simp (disch := omega) only [↓if_pos, and_self]
    obtain hvideo | hram := Nat.lt_or_ge a 0xA000
    · simp (disch := omega) only [↓if_pos, ↓if_neg, and_self]
    · simp (disch := omega) only [↓if_pos, ↓if_neg, and_self]
  obtain hwindows | hecho := Nat.lt_or_ge a 0xE000
  · obtain hfirst | hsecond := Nat.lt_or_ge a 0xD000
    · simp (disch := omega) only [↓if_pos, ↓if_neg, and_self]
      exact congrArg workRam (by omega)
    · simp (disch := omega) only [↓if_pos, ↓if_neg, and_self]
      exact congrArg workRam (by omega)
  · obtain hfirst | hsecond := Nat.lt_or_ge a 0xF000
    · simp (disch := omega) only [↓if_pos, ↓if_neg, and_self]
      exact congrArg workRam (by omega)
    · simp (disch := omega) only [↓if_pos, ↓if_neg, and_self]
      exact congrArg workRam (by omega)

/-- From the object table on there are few addresses. -/
theorem tables_above : ∀ i : Fin 0x200, let address := UInt16.ofNat (0xFE00 + i)
    ofRead address = (if address = 0xFF50 then .nothing else decode address) ∧
      ofWrite address = decode address := by
  decide +kernel

theorem tables_eq (address : UInt16) :
    ofRead address = (if address = 0xFF50 then .nothing else decode address) ∧
      ofWrite address = decode address := by
  obtain hlt | hge := Nat.lt_or_ge address.toNat 0xFE00
  · have hne : address ≠ 0xFF50 := by
      rintro rfl
      exact absurd hlt (by decide)
    rw [if_neg hne]
    exact tables_of_lt hlt
  · have hsize := address.toNat_lt
    have hi : address.toNat - 0xFE00 < 0x200 := by omega
    have habove := tables_above ⟨address.toNat - 0xFE00, hi⟩
    rwa [Nat.add_sub_cancel' hge, UInt16.ofNat_toNat] at habove

/-- Reading and writing name the same cell. -/
theorem ofRead_eq_ofWrite (h : address ≠ 0xFF50) : ofRead address = ofWrite address := by
  obtain ⟨hread, hwrite⟩ := tables_eq address
  rw [hread, hwrite, if_neg h]

end Region

variable (b : Bus) (address : UInt16)

/-- The switch of the boot ROM reads like an address that means nothing. -/
theorem readUnlocked_eq :
    b.readUnlocked address = b.readRegion (Region.decode address) address := by
  rw [readUnlocked, (Region.tables_eq address).1]
  split
  · rename_i h
    rw [h]
    rfl
  · rfl

theorem read_eq : b.read address =
    if b.objectsBusy && !(0xFF80 ≤ address && address ≤ 0xFFFE) then 0xFF
    else if b.reachable (Region.decode address) then b.readUnlocked address
    else 0xFF := by
  have hreach : b.reachable (Region.ofRead address) = b.reachable (Region.decode address) := by
    rw [(Region.tables_eq address).1]
    split
    · rename_i h
      rw [h]
      rfl
    · rfl
  rw [read, hreach]

theorem write_eq (value : UInt8) : b.write address value =
    if b.objectsBusy && address < 0xFF00 then b
    else if b.reachable (Region.decode address) then
      b.writeRegion (Region.decode address) address value
    else b := by
  rw [write, (Region.tables_eq address).2]

end DotMatrix.Bus
