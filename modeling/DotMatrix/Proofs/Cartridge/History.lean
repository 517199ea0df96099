import DotMatrix.Proofs.Cartridge.Header
import DotMatrix.Proofs.Cartridge.Slot

/-!
# The history of a cartridge

What the program does with a cartridge that is in the slot, and what the console does beside
it, from power-on to now. A history has its newest act first, so that the value last written
to a register is the first that is found in it.
-/
namespace DotMatrix.Slot

inductive Act where
  | writeRom (address : UInt16) (value : UInt8)
  | writeRam (address : UInt16) (value : UInt8)
  | pass (dots : UInt32)
  | setClock (days : UInt16) (hours minutes seconds : UInt8) (now : UInt64)
  | reset
  /-- The host asks whether RAM or clock were written. -/
  | takeTouched
deriving DecidableEq, Repr

def Act.apply (c : Cartridge) (s : Slot) : Act → Slot
  | .writeRom address value => s.writeRom address value
  | .writeRam address value => s.writeRam address value
  | .pass dots => s.advance dots.toNat
  | .setClock days hours minutes seconds now =>
    (s.setClock days.toNat hours.toNat minutes.toNat seconds.toNat now.toNat).1
  | .reset => s.reset c
  | .takeTouched => s.takeTouched.1

def replay (c : Cartridge) (now : UInt64) : List Act → Slot
  | [] => insert c now.toNat
  | act :: before => act.apply c (replay c now before)

def within (first last : Nat) (address : UInt16) : Bool :=
  first ≤ address.toNat && address.toNat ≤ last

/-- A write goes to an address that the bus decodes to the ROM or to the RAM window. -/
def Act.decoded : Act → Bool
  | .writeRom address _ => within 0x0000 0x7FFF address
  | .writeRam address _ => within 0xA000 0xBFFF address
  | _ => true

/-- What an act leaves in the register behind some addresses of the ROM, if anything. A reset
leaves the value of power-on. -/
def Act.leaves? (register : UInt16 → Bool) (initial : UInt8) : Act → Option UInt8
  | .writeRom address value => if register address then some value else none
  | .reset => some initial
  | _ => none

def lastWritten (register : UInt16 → Bool) (initial : UInt8) (history : List Act) : UInt8 :=
  (history.findSome? (Act.leaves? register initial)).getD initial

variable {c : Cartridge} {s : Slot} {register : UInt16 → Bool} {initial : UInt8}
  {history : List Act}

theorem leaves?_writeRom (address : UInt16) (value : UInt8) :
    (Act.writeRom address value).leaves? register initial =
      if register address then some value else none :=
  rfl

@[simp] theorem lastWritten_cons (act : Act) : lastWritten register initial (act :: history) =
    (act.leaves? register initial).getD (lastWritten register initial history) := by
  rw [lastWritten, List.findSome?_cons]
  cases act.leaves? register initial <;> rfl

/-! ## What a history does not change -/

theorem InRange.apply (h : s.InRange) (act : Act) : (act.apply c s).InRange := by
  cases act with
  | writeRom address value => exact h.writeRom address value
  | writeRam address value => exact h.writeRam address value
  | pass dots => exact h.advance dots.toNat
  | setClock days hours minutes seconds now => exact h.setClock _ _ _ _ now.toNat_lt
  | reset => exact h.reset c
  | takeTouched => exact h

theorem hardware_apply (h : s.hardware = (insert c 0).hardware) (act : Act) :
    (act.apply c s).hardware = (insert c 0).hardware := by
  cases act with
  | writeRom address value => exact (hardware_writeRom s address value).trans h
  | writeRam address value => exact (hardware_writeRam s address value).trans h
  | pass dots => exact (hardware_advance dots.toNat s).trans h
  | setClock days hours minutes seconds now => exact (hardware_setClock s _ _ _ _ _).trans h
  | reset =>
    have hsize : s.ram.size = c.ramSize :=
      (congrArg Hardware.ramSize h).trans Array.size_replicate
    exact hardware_reset hsize 0
  | takeTouched => exact h

theorem hardware_replay (c : Cartridge) (now : UInt64) (history : List Act) :
    (replay c now history).hardware = (insert c 0).hardware := by
  induction history with
  | nil => exact hardware_insert c _ 0
  | cons act before ih => exact hardware_apply ih act

section Hardware

variable (c : Cartridge) (now : UInt64) (history : List Act)

@[simp] theorem rom_replay : (replay c now history).rom = c.image :=
  congrArg Hardware.rom (hardware_replay c now history)

@[simp] theorem romBanks_replay : (replay c now history).romBanks = c.romBanks :=
  congrArg Hardware.romBanks (hardware_replay c now history)

@[simp] theorem motor_replay : (replay c now history).motor = c.board.rumble :=
  congrArg Hardware.motor (hardware_replay c now history)

@[simp] theorem size_ram_replay : (replay c now history).ram.size = c.ramSize :=
  (congrArg Hardware.ramSize (hardware_replay c now history)).trans Array.size_replicate

end Hardware

/-- A slot has a clock if the cartridge's board has one. -/
theorem hasClock_of_hardware {image : ByteArray} (hc : c.Accepted image)
    (h : s.hardware = (insert c 0).hardware) : s.hasClock = c.board.clock := by
  have hnew : (insert c 0).hasClock = c.board.clock := by
    simp only [hasClock, insert, Controller.ofBoard, Controller.clock?]
    have hmapper := hc.clock
    cases hm : c.board.mapper <;> cases hk : c.board.clock <;> simp_all
  exact (congrArg (·.kind.2) h).trans hnew

end DotMatrix.Slot
