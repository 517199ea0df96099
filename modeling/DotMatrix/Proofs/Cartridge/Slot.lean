import DotMatrix.Cartridge.Slot
import DotMatrix.Proofs.Cartridge.Controller

/-!
# The cartridge slot in a snapshot

The hardware of a slot is what no write, no battery image and no snapshot changes. Two
slots with the same hardware can read each other's sections.
-/
namespace DotMatrix.Slot

/-- What stays the same as long as the cartridge is in the slot. -/
structure Hardware where
  rom : ByteArray
  romBanks : Nat
  ramSize : Nat
  motor : Bool
  /-- The controller's number, and whether it has a clock. -/
  kind : UInt8 × Bool

def hardware (s : Slot) : Hardware where
  rom := s.rom
  romBanks := s.romBanks
  ramSize := s.ram.size
  motor := s.motor
  kind := s.controller.kind

/-- The registers of the controller keep to their bits. -/
def InRange (s : Slot) : Prop := s.controller.InRange

variable {s : Slot}

theorem inRange_insert (c : Cartridge) {now : Nat} (h : now < byteSpan 8) :
    (insert c now).InRange :=
  Controller.inRange_ofBoard c.board h

theorem hardware_insert (c : Cartridge) (now now' : Nat) :
    (insert c now).hardware = (insert c now').hardware := by
  simp only [hardware, insert, Controller.kind_ofBoard c.board now now']

/-- A new controller of the old kind is no new hardware. -/
theorem hardware_of_controller {c : Controller} (h : c.kind = s.controller.kind) :
    { s with controller := c }.hardware = s.hardware := by
  simp only [hardware, h]

/-! ## What a slot does -/

theorem InRange.writeRom (h : s.InRange) (address : UInt16) (value : UInt8) :
    (s.writeRom address value).InRange :=
  Controller.InRange.program h s.motor address value

@[simp] theorem hardware_writeRom (s : Slot) (address : UInt16) (value : UInt8) :
    (s.writeRom address value).hardware = s.hardware :=
  hardware_of_controller (Controller.kind_program s.motor s.controller address value)

@[simp] theorem controller_setRamByte (s : Slot) (i : Nat) (value : UInt8) :
    (s.setRamByte i value).controller = s.controller := by
  rw [setRamByte]
  split <;> rfl

@[simp] theorem hardware_setRamByte (s : Slot) (i : Nat) (value : UInt8) :
    (s.setRamByte i value).hardware = s.hardware := by
  rw [setRamByte]
  split
  · rename_i hi
    have hs : (s.ram.set i value).size = s.ram.size := Array.size_set hi
    simp only [hardware, hs]
  · rfl

theorem InRange.writeRam (h : s.InRange) (address : UInt16) (value : UInt8) :
    (s.writeRam address value).InRange := by
  rw [Slot.writeRam]
  split
  · exact h
  · rwa [InRange, controller_setRamByte]
  · rwa [InRange, controller_setRamByte]
  · split
    · exact Controller.InRange.mapClock h fun _ hk => hk.write _ _
    · exact h

@[simp] theorem hardware_writeRam (s : Slot) (address : UInt16) (value : UInt8) :
    (s.writeRam address value).hardware = s.hardware := by
  rw [writeRam]
  split
  · rfl
  · exact hardware_setRamByte s _ _
  · exact hardware_setRamByte s _ _
  · split
    · exact hardware_of_controller (Controller.kind_mapClock _ _)
    · rfl

theorem InRange.advance (h : s.InRange) (dots : Nat) : (s.advance dots).InRange := by
  rw [Slot.advance]
  split
  · exact Controller.InRange.mapClock h fun _ hk => hk.advance dots
  · exact h

@[simp] theorem hardware_advance (dots : Nat) (s : Slot) :
    (s.advance dots).hardware = s.hardware := by
  rw [advance]
  split
  · exact hardware_of_controller (Controller.kind_mapClock _ _)
  · rfl

theorem InRange.setClock (h : s.InRange) (days hours minutes seconds : Nat) {now : Nat}
    (hn : now < byteSpan 8) : (s.setClock days hours minutes seconds now).1.InRange := by
  rw [Slot.setClock]
  split
  · exact Controller.InRange.mapClock h fun _ hk => hk.setTime days hours minutes seconds hn
  · exact h

@[simp] theorem hardware_setClock (s : Slot) (days hours minutes seconds now : Nat) :
    (s.setClock days hours minutes seconds now).1.hardware = s.hardware := by
  rw [setClock]
  split
  · exact hardware_of_controller (Controller.kind_mapClock _ _)
  · rfl

theorem InRange.batteryImage (h : s.InRange) {now : Nat} (hn : now < byteSpan 8) :
    (s.batteryImage now).1.InRange :=
  Controller.InRange.mapClock h fun _ hk => hk.reanchor hn

@[simp] theorem hardware_batteryImage (s : Slot) (now : Nat) :
    (s.batteryImage now).1.hardware = s.hardware :=
  hardware_of_controller (Controller.kind_mapClock _ _)

/-- A battery image that is accepted replaces the RAM and sets the clock. -/
theorem eq_of_loadBattery {s' : Slot} {image : Bytes} {now : Nat}
    (h : s.loadBattery image now = .ok s') :
    s.ram.size ≤ image.length ∧ s' = { s with
      ram := (image.take s.ram.size).toByteArray
      controller := s.controller.mapClock fun c =>
        if image.length = s.ram.size then { c with anchor := now }
        else (c.loadTail (image.drop s.ram.size)).catchUp now } := by
  simp only [loadBattery] at h
  by_cases hs : image.length = s.ram.size ∨
      image.length = s.ram.size + if s.hasClock then Clock.tailSize else 0
  · rw [if_pos hs] at h
    exact ⟨by omega, (Except.ok.inj h).symm⟩
  · rw [if_neg hs] at h
    cases h

theorem InRange.loadBattery {s' : Slot} {image : Bytes} {now : Nat} (h : s.InRange)
    (hn : now < byteSpan 8) (hl : s.loadBattery image now = .ok s') : s'.InRange := by
  obtain ⟨_, rfl⟩ := eq_of_loadBattery hl
  refine Controller.InRange.mapClock h fun c hc => ?_
  split
  · exact hc.reanchor hn
  · exact (hc.loadTail _).catchUp hn

theorem hardware_loadBattery {s' : Slot} {image : Bytes} {now : Nat}
    (hl : s.loadBattery image now = .ok s') : s'.hardware = s.hardware := by
  obtain ⟨hsize, rfl⟩ := eq_of_loadBattery hl
  have hram : (image.take s.ram.size).toByteArray.size = s.ram.size := by
    rw [List.size_toByteArray, List.length_take, Nat.min_eq_left hsize]
  simp only [hardware, hram, Controller.kind_mapClock]

/-- The registers start anew, and the clock that stays was in range. -/
theorem InRange.reset (h : s.InRange) (c : Cartridge) : (s.reset c).InRange := by
  have hfresh : (insert c 0).InRange := inRange_insert c (by decide)
  rw [InRange, Slot.reset]
  dsimp only
  split
  · rename_i clock hc
    have hclock : clock.InRange := by
      have hs : s.controller.InRange := h
      cases hk : s.controller with
      | mbc3 r =>
        rw [hk] at hs hc
        exact hs.clock clock hc
      | _ => rw [hk] at hc; cases hc
    exact Controller.InRange.mapClock hfresh fun _ _ => hclock
  · exact hfresh

theorem hardware_reset {c : Cartridge} (hs : s.ram.size = c.ramSize) (now : Nat) :
    (s.reset c).hardware = (insert c now).hardware := by
  have hram : (insert c now).ram.size = s.ram.size := Array.size_replicate.trans hs.symm
  have hkind : (s.reset c).controller.kind = (insert c now).controller.kind := by
    rw [Slot.reset]
    dsimp only
    split
    · exact (Controller.kind_mapClock _ _).trans (Controller.kind_ofBoard c.board 0 now)
    · exact Controller.kind_ofBoard c.board 0 now
  simp only [hardware, hkind, hram]
  rfl

/-! ## The sections of a slot -/

open Snapshot Snapshot.Layout

theorem length_write_controllerLayout (s : Slot) :
    (controllerLayout.write s).length = s.controller.sectionSize :=
  Controller.length_write_layout s.controller

theorem restores_controllerLayout {s₀ : Slot} (h : s.InRange) (hh : s.hardware = s₀.hardware) :
    controllerLayout.Restores s s₀ { s₀ with controller := s.controller } :=
  restores_part (Controller.restores_layout h (congrArg Hardware.kind hh))

theorem reads_controllerLayout (s : Slot) :
    controllerLayout.Reads s.controller.sectionSize s
      fun s' => s'.InRange ∧ s'.hardware = s.hardware :=
  reads_part ((Controller.reads_layout s.controller).imp fun _ hc =>
    ⟨hc.1, hardware_of_controller hc.2⟩)

theorem length_write_ramLayout (s : Slot) : (ramLayout.write s).length = s.ram.size := rfl

theorem load_ramLayout {s₀ : Slot} (hs : s.ram.size = s₀.ram.size) :
    ramLayout.load (ramLayout.write s) s₀ = ({ s₀ with ram := s.ram }, .ok ()) := by
  have hsize : s.ram.data.toList.length = s₀.ram.size := hs
  have hram : s.ram.data.toList.toByteArray = s.ram := by
    apply ByteArray.ext
    simp
  simp only [Layout.load, ramLayout, hsize, ite_true, hram, finishSection]

theorem reads_ramLayout (s : Slot) : ramLayout.Reads s.ram.size s
    fun s' => s'.controller = s.controller ∧ s'.hardware = s.hardware := by
  intro bytes t rest hr
  simp only [ramLayout] at hr
  split at hr
  · rename_i hsize
    cases hr
    have hram : bytes.toByteArray.size = s.ram.size := by rw [List.size_toByteArray, hsize]
    exact ⟨hsize, rfl, by simp only [hardware, hram]⟩
  · cases hr

end DotMatrix.Slot
