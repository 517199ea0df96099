import DotMatrix.Proofs.Machine.Snapshot

/-!
# Reachable machines

The machines that come from power-on by steps, budgets, buttons, the clock and the
battery image of the cartridge, and accepted snapshots. All of them are in range, and
those of one origin have the same hardware.
-/
namespace DotMatrix

open Snapshot

/-! ## Power-on -/

theorem Cartridge.ramSize_lt_of_ramSize? {code : UInt8} {size : Nat}
    (h : ramSize? code = some size) : size < byteSpan 4 := by
  simp only [ramSize?] at h
  split at h <;> cases h <;> decide

/-- The RAM of an accepted cartridge fits a section. -/
theorem Cartridge.ramSize_lt {image : ByteArray} {c : Cartridge} (h : ofImage image = .ok c) :
    c.ramSize < byteSpan 4 := by
  simp only [ofImage, bind, Except.bind, pure, Except.pure, throw, throwThe,
    MonadExceptOf.throw] at h
  split at h
  · cases h
  split at h
  · cases h
  split at h
  · split at h
    · split at h
      · cases h
        exact (by decide : mbc2RamSize < byteSpan 4)
      · split at h
        · rename_i size hsize
          cases h
          exact ramSize_lt_of_ramSize? hsize
        · cases h
    · cases h
  · cases h

/-- An image of zeros, but for the checksum of its header. -/
def Cartridge.blankImage : ByteArray :=
  ⟨(List.replicate 0x14D (0 : UInt8) ++ [0xE7, 0, 0]).toArray⟩

/-- The cartridge with that image: two banks and neither a controller nor RAM. -/
def Cartridge.blank : Cartridge where
  image := blankImage
  title := titleOf blankImage
  kind := 0
  board := { mapper := .none }
  romBanks := 2
  ramSize := 0
  color := .none
  checksum := 0xE7

theorem Cartridge.ofImage_blank : ofImage blankImage = .ok blank := by
  have hsize : ¬ blankImage.size < headerEnd := by decide +kernel
  have hsum : headerChecksum blankImage = 0xE7 := by decide +kernel
  have hbyte : headerByte blankImage 0x14D = 0xE7 := by decide +kernel
  have hkind : headerByte blankImage 0x147 = 0 := by decide +kernel
  have hrom : headerByte blankImage 0x148 = 0 := by decide +kernel
  have hram : headerByte blankImage 0x149 = 0 := by decide +kernel
  have hcolor : colorOf blankImage = .none := by decide +kernel
  simp only [ofImage, hsize, hsum, hbyte, hkind, hrom, hram, hcolor]
  rfl

namespace Bus

theorem inRange_new {slot : Slot} (h : slot.InRange) {model : Model} {cgb : Bool}
    (hc : cgb = true → model.isColor = true) (sampleRate : Nat) :
    (new slot model cgb sampleRate).InRange where
  slot := h
  video := Video.inRange_off hc
  sound := Sound.inRange_off model.isColor sampleRate
  timer := Nat.zero_lt_succ _
  joypad := and_mask_idem 0x30 0x30
  requests := Nat.zero_lt_succ _
  enables := Nat.zero_lt_succ _
  bootRom := rfl
  workBank := ⟨Nat.le_refl _, Nat.succ_lt_succ (Nat.zero_lt_succ _)⟩
  blockTransfer := ⟨(by decide : blockAddress 0x8000 = 0x8000), Nat.zero_le _⟩
  objectTransfer := ⟨Nat.zero_le _, Nat.zero_le _⟩

theorem evolves_boot (b : Bus) : Evolves b b.boot :=
  { Evolves.refl b with
    hardware := by
      have hc : b.sound.boot.config = b.sound.config := by
        rw [Sound.config, Sound.resampler_boot, Sound.cgb_boot, Sound.config]
      simp only [hardware, boot, Video.features_boot, hc]
    video := fun h => h.boot
    sound := fun h => h.boot
    timer := fun _ => Nat.zero_lt_succ _
    requests := fun _ => Interrupt.onLines_bit .vblank
    bootRom := fun _ => rfl
    paced := fun _ hp => by
      rw [show b.boot.sound.resampler = b.sound.resampler from Sound.resampler_boot b.sound]
      exact hp }

theorem InRange.mapBootRom {b : Bus} (h : b.InRange) (rom : BootRom) :
    (b.mapBootRom rom).InRange :=
  { h with bootRom := rfl }

theorem hardware_mapBootRom {b b' : Bus} (h : b'.hardware = b.hardware) (rom : BootRom) :
    (b'.mapBootRom rom).hardware = (b.mapBootRom rom).hardware :=
  congrArg (fun h : Hardware => { h with bootRom? := some rom }) h

end Bus

/-- What a console is built from: an accepted cartridge, the model, a boot ROM if there is
one, and the rate of the host. -/
structure Origin where
  image : ByteArray
  cartridge : Cartridge
  accepted : Cartridge.ofImage image = .ok cartridge
  model : Model
  bootRom? : Option BootRom
  sampleRate : Nat

namespace Origin

def powerOn (o : Origin) (now : UInt64) : Except Failure Machine :=
  Machine.new o.cartridge o.model o.bootRom? o.sampleRate now.toNat

variable {o : Origin} {now now' : UInt64} {m m' : Machine}

def bus (o : Origin) (now : UInt64) : Bus :=
  .new (.insert o.cartridge now.toNat) o.model (o.cartridge.runsInColor o.model) o.sampleRate

theorem inRange_bus (o : Origin) (now : UInt64) : (o.bus now).InRange := by
  apply Bus.inRange_new (Slot.inRange_insert o.cartridge now.toNat_lt)
  intro hc
  simp only [Cartridge.runsInColor, Bool.and_eq_true] at hc
  exact hc.1

theorem hardware_bus (o : Origin) (now now' : UInt64) :
    (o.bus now').hardware = (o.bus now).hardware := by
  have hs := Slot.hardware_insert o.cartridge now'.toNat now.toNat
  simp only [bus, Bus.hardware, Bus.new, hs]

/-- The bus as a boot ROM finds it: it is not the boot ROM that installs the palettes of a
monochrome cartridge. -/
def prepared (o : Origin) (now : UInt64) : Bus :=
  { o.bus now with
    video := if o.model.isColor && !o.cartridge.runsInColor o.model then
      (o.bus now).video.installPalettes else (o.bus now).video }

theorem evolves_prepared (o : Origin) (now : UInt64) : Bus.Evolves (o.bus now) (o.prepared now) := by
  rw [prepared]
  split
  · exact Bus.evolves_video rfl fun h => h.installPalettes
  · exact .refl _

def booted (o : Origin) (now : UInt64) : Machine where
  core := { cpu := .boot o.model, bus := (o.bus now).boot }

theorem powerOn_eq_booted (h : o.bootRom? = none) (now : UInt64) :
    o.powerOn now = .ok (o.booted now) := by
  rw [powerOn, h]
  rfl

/-- How a console starts. -/
theorem eq_of_powerOn (h : o.powerOn now = .ok m) :
    (o.bootRom? = none ∧ m = o.booted now) ∨
    ∃ rom, o.bootRom? = some rom ∧
      m = { core := { cpu := {}, bus := (o.prepared now).mapBootRom rom } } := by
  unfold powerOn Machine.new at h
  dsimp only at h
  split at h
  · rename_i hb
    exact .inl ⟨hb, (Except.ok.inj h).symm⟩
  · rename_i rom hb
    split at h
    · exact .inr ⟨rom, hb, (Except.ok.inj h).symm⟩
    · cases h

/-- A console that has just been switched on is in range. -/
theorem inRange_powerOn (h : o.powerOn now = .ok m) : m.InRange := by
  have hb := o.inRange_bus now
  rcases eq_of_powerOn h with ⟨_, rfl⟩ | ⟨rom, _, rfl⟩
  · exact ⟨Processor.inRange_boot o.model, (Bus.evolves_boot _).inRange hb, Nat.zero_le _, rfl,
      Nat.zero_le _⟩
  · have hp := (o.evolves_prepared now).inRange hb
    exact ⟨Processor.inRange_default, hp.mapBootRom rom, Nat.zero_le _, rfl, Nat.zero_le _⟩

theorem paced_powerOn (h : o.powerOn now = .ok m) : m.Paced := by
  have hz : (o.bus now).sound.resampler.Paced := Sound.Resampler.zero_mul_le _ _
  rcases eq_of_powerOn h with ⟨_, rfl⟩ | ⟨rom, _, rfl⟩
  · exact (Bus.evolves_boot _).paced (o.inRange_bus now).sound hz
  · exact (o.evolves_prepared now).paced (o.inRange_bus now).sound hz

theorem ramSize_eq_of_powerOn (h : o.powerOn now = .ok m) :
    m.hardware.slot.ramSize = o.cartridge.ramSize := by
  have hsize : (Slot.insert o.cartridge now.toNat).ram.size = o.cartridge.ramSize :=
    Array.size_replicate
  rcases eq_of_powerOn h with ⟨_, rfl⟩ | ⟨rom, _, rfl⟩
  · exact hsize
  · exact hsize

theorem ramSize_powerOn (h : o.powerOn now = .ok m) : m.hardware.slot.ramSize < byteSpan 4 := by
  rw [ramSize_eq_of_powerOn h]
  exact Cartridge.ramSize_lt o.accepted

/-- The hardware does not depend on when the console is switched on. -/
theorem hardware_powerOn (h : o.powerOn now = .ok m) (h' : o.powerOn now' = .ok m') :
    m'.hardware = m.hardware := by
  have hb := o.hardware_bus now now'
  rcases eq_of_powerOn h with ⟨hrom, rfl⟩ | ⟨rom, hrom, rfl⟩ <;>
    rcases eq_of_powerOn h' with ⟨hrom', rfl⟩ | ⟨rom', hrom', rfl⟩ <;>
    cases hrom.symm.trans hrom'
  · exact ((Bus.evolves_boot _).hardware.trans hb).trans (Bus.evolves_boot _).hardware.symm
  · apply Bus.hardware_mapBootRom
    exact ((o.evolves_prepared now').hardware.trans hb).trans (o.evolves_prepared now).hardware.symm

/-- A monochrome console without a boot ROM and with the blank cartridge in it. -/
def blank : Origin where
  image := Cartridge.blankImage
  cartridge := Cartridge.blank
  accepted := Cartridge.ofImage_blank
  model := .dmg
  bootRom? := none
  sampleRate := 44100

theorem powerOn_blank (now : UInt64) : blank.powerOn now = .ok (blank.booted now) :=
  powerOn_eq_booted rfl now

end Origin

/-! ## What the host does -/

/-- What the host does with a machine, snapshots apart. -/
inductive Action where
  | step
  | runFor (dots : Nat)
  | press (buttons : UInt8)
  | setClock (days : UInt16) (hours minutes seconds : UInt8) (now : UInt64)
  | batteryImage (now : UInt64)
  /-- An image that is refused changes nothing. -/
  | loadBattery (image : Bytes) (now : UInt64)
  | takeLines
  | takeFrames
  | takeTouched

namespace Machine

def withSlot (m : Machine) (slot : Slot) : Machine := m.mapBus ({ · with slot })

def perform (a : Action) (m : Machine) : Machine :=
  match a with
  | .step => m.step.1
  | .runFor dots => (m.runFor dots).1
  | .press buttons => m.mapBus (·.press buttons)
  | .setClock days hours minutes seconds now =>
    m.withSlot (m.core.bus.slot.setClock days.toNat hours.toNat minutes.toNat seconds.toNat
      now.toNat).1
  | .batteryImage now => m.withSlot (m.core.bus.slot.batteryImage now.toNat).1
  | .loadBattery image now =>
    match m.core.bus.slot.loadBattery image now.toNat with
    | .ok slot => m.withSlot slot
    | .error _ => m
  | .takeLines => m.mapBus fun b => { b with video := b.video.takeFinished.1 }
  | .takeFrames => m.mapBus fun b => { b with sound := b.sound.takeFrames.1 }
  | .takeTouched => m.withSlot m.core.bus.slot.takeTouched.1

variable {m m' : Machine}

theorem evolves_withSlot {slot : Slot} (hh : slot.hardware = m.core.bus.slot.hardware)
    (hr : m.core.bus.slot.InRange → slot.InRange) : Evolves m (m.withSlot slot) :=
  evolves_mapBus (Bus.evolves_slot hh hr) rfl rfl

theorem evolves_perform (a : Action) (m : Machine) : Evolves m (m.perform a) := by
  cases a with
  | step => exact evolves_step m
  | runFor dots => exact evolves_runFor dots m
  | press buttons => exact evolves_press buttons m
  | setClock days hours minutes seconds now =>
    apply evolves_withSlot (Slot.hardware_setClock _ _ _ _ _ _)
    exact fun h => h.setClock _ _ _ _ now.toNat_lt
  | batteryImage now =>
    apply evolves_withSlot (Slot.hardware_batteryImage _ _)
    exact fun h => h.batteryImage now.toNat_lt
  | loadBattery image now =>
    simp only [perform]
    cases hl : m.core.bus.slot.loadBattery image now.toNat with
    | error failure => exact .refl m
    | ok slot =>
      apply evolves_withSlot (Slot.hardware_loadBattery hl)
      exact fun h => h.loadBattery now.toNat_lt hl
  | takeLines =>
    rw [perform]
    apply evolves_mapBus
    · exact Bus.evolves_video rfl fun h => h.of_eq rfl rfl rfl rfl
    · rfl
    · rfl
  | takeFrames =>
    rw [perform]
    apply evolves_mapBus
    · exact Bus.evolves_sound rfl (fun h => h.takeFrames) fun _ hp => hp
    · rfl
    · rfl
  | takeTouched => exact evolves_withSlot rfl id

/-! ## Reachable machines -/

/-- The machines of one origin, whatever the host does and whatever snapshots it loads. -/
inductive Reachable (o : Origin) : Machine → Prop
  | powerOn {m : Machine} (now : UInt64) (h : o.powerOn now = .ok m) : Reachable o m
  | perform {m : Machine} (a : Action) (h : Reachable o m) : Reachable o (m.perform a)
  | load {m m' : Machine} (blob : Bytes) (h : Reachable o m) (hl : m.load blob = .ok m') :
    Reachable o m'

/-- The machines whose snapshots all come from such machines, of whatever origin. -/
inductive Genuine : Origin → Machine → Prop
  | powerOn {o : Origin} {m : Machine} (now : UInt64) (h : o.powerOn now = .ok m) : Genuine o m
  | perform {o : Origin} {m : Machine} (a : Action) (h : Genuine o m) : Genuine o (m.perform a)
  | load {o source : Origin} {m n m' : Machine} (h : Genuine o m) (hn : Genuine source n)
    (hl : m.load n.snapshot = .ok m') : Genuine o m'

variable {o : Origin} {now : UInt64} {fresh : Machine}

theorem Reachable.inRange (h : Reachable o m) : m.InRange := by
  induction h with
  | powerOn now h => exact o.inRange_powerOn h
  | perform a _ ih => exact (evolves_perform a _).inRange ih
  | load blob _ hl ih =>
    obtain ⟨_, _, _, hloaded⟩ := of_load ih hl
    exact hloaded.kept.inRange

theorem Reachable.hardware (h : Reachable o m) (hf : o.powerOn now = .ok fresh) :
    m.hardware = fresh.hardware := by
  induction h with
  | powerOn now' h => exact o.hardware_powerOn hf h
  | perform a _ ih => exact (evolves_perform a _).hardware.trans ih
  | load blob hm hl ih =>
    obtain ⟨_, _, _, hloaded⟩ := of_load hm.inRange hl
    exact hloaded.kept.hardware.trans ih

/-- A machine that is reachable has been switched on. -/
theorem Reachable.exists_powerOn (h : Reachable o m) :
    ∃ now fresh, o.powerOn now = .ok fresh := by
  induction h with
  | powerOn now h => exact ⟨now, _, h⟩
  | perform _ _ ih => exact ih
  | load _ _ _ ih => exact ih

theorem Reachable.hardware_eq (h : Reachable o m) (h' : Reachable o m') :
    m'.hardware = m.hardware := by
  obtain ⟨now, fresh, hf⟩ := h.exists_powerOn
  exact (h'.hardware hf).trans (h.hardware hf).symm

theorem Reachable.ramSize_lt (h : Reachable o m) : m.core.bus.slot.ram.size < byteSpan 4 := by
  obtain ⟨now, fresh, hf⟩ := h.exists_powerOn
  have hr := o.ramSize_powerOn hf
  rw [← h.hardware hf] at hr
  exact hr

theorem Genuine.reachable (h : Genuine o m) : Reachable o m := by
  induction h with
  | powerOn now h => exact .powerOn now h
  | perform a _ ih => exact ih.perform a
  | load _ _ hl ih _ => exact ih.load _ hl

end Machine

end DotMatrix
