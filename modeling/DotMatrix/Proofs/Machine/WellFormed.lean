import DotMatrix.Proofs.Machine.RoundTrip
import DotMatrix.Session.Basic

/-!
# Well-formed machines

The numbers that every machine of an origin keeps to, from power-on through whatever the
program and the host do. `WellFormed` names them one by one, and `PartsInRange` is the same
in terms of the ranges of the parts. A well-formed machine need not be in range: nothing is
said of the sound unit, the timer and the joypad, and nothing has to be, since each part
keeps to its range by itself. A snapshot that is accepted makes any machine of the origin
well-formed, whatever state it was in.
-/
namespace DotMatrix

/-! ## The parts -/

/-- The registers of a clock keep to their bits, and its second is not over. -/
structure Clock.Bounded (c : Clock) : Prop where
  live : (c.live.seconds ≤ 63 ∧ c.live.minutes ≤ 63) ∧ c.live.hours ≤ 31 ∧ c.live.days ≤ 511
  latched : (c.latched.seconds ≤ 63 ∧ c.latched.minutes ≤ 63) ∧ c.latched.hours ≤ 31 ∧
    c.latched.days ≤ 511
  anchor : c.anchor < 2 ^ 64
  dots : c.dots < 4194304

/-- The banks that a controller can have selected. -/
def Controller.Banked : Controller → Prop
  | .plain => True
  | .mbc1 r => 1 ≤ r.bank ∧ r.bank ≤ 31 ∧ r.high ≤ 3
  | .mbc2 r => 1 ≤ r.bank ∧ r.bank ≤ 15
  | .mbc3 r => (1 ≤ r.bank ∧ r.bank ≤ 127) ∧ ∀ c ∈ r.clock?, c.Bounded
  | .mbc5 r => r.bank ≤ 0x1FF ∧ r.ramBank ≤ 15

theorem Clock.bounded_iff {c : Clock} : c.Bounded ↔ c.InRange := by
  constructor
  · rintro ⟨⟨⟨hs, hm⟩, hh, hd⟩, ⟨⟨hs', hm'⟩, hh', hd'⟩, ha, hk⟩
    exact ⟨⟨Nat.lt_succ_of_le hs, Nat.lt_succ_of_le hm, Nat.lt_succ_of_le hh, Nat.lt_succ_of_le hd⟩,
      ⟨Nat.lt_succ_of_le hs', Nat.lt_succ_of_le hm', Nat.lt_succ_of_le hh', Nat.lt_succ_of_le hd'⟩,
      ha, hk⟩
  · rintro ⟨⟨hs, hm, hh, hd⟩, ⟨hs', hm', hh', hd'⟩, ha, hk⟩
    exact ⟨⟨⟨Nat.le_of_lt_succ hs, Nat.le_of_lt_succ hm⟩, Nat.le_of_lt_succ hh,
      Nat.le_of_lt_succ hd⟩, ⟨⟨Nat.le_of_lt_succ hs', Nat.le_of_lt_succ hm'⟩,
      Nat.le_of_lt_succ hh', Nat.le_of_lt_succ hd'⟩, ha, hk⟩

theorem one_le_iff_ne_zero {v : UInt8} : 1 ≤ v ↔ v ≠ 0 := by
  rw [UInt8.le_iff_toNat_le, ne_eq, ← UInt8.toNat_inj]
  exact Nat.one_le_iff_ne_zero

/-- A register is below a power of two if it is no larger than the number before. -/
theorem le_mask_iff {v mask : UInt8} {n : Nat} (hm : mask.toNat + 1 = n) :
    v ≤ mask ↔ v.toNat < n := by
  rw [UInt8.le_iff_toNat_le, ← hm]
  exact Nat.lt_succ_iff.symm

theorem Controller.banked_iff {c : Controller} : c.Banked ↔ c.InRange := by
  cases c with
  | plain => exact Iff.rfl
  | mbc1 r =>
    rw [Banked, one_le_iff_ne_zero, le_mask_iff (n := 2 ^ 5) rfl, le_mask_iff (n := 2 ^ 2) rfl]
    exact ⟨fun ⟨hz, hb, hh⟩ => ⟨hz, hb, hh⟩, fun ⟨hz, hb, hh⟩ => ⟨hz, hb, hh⟩⟩
  | mbc2 r =>
    rw [Banked, one_le_iff_ne_zero, le_mask_iff (n := 2 ^ 4) rfl]
    exact ⟨fun ⟨hz, hb⟩ => ⟨hz, hb⟩, fun ⟨hz, hb⟩ => ⟨hz, hb⟩⟩
  | mbc3 r =>
    rw [Banked, one_le_iff_ne_zero, le_mask_iff (n := 2 ^ 7) rfl]
    simp only [Clock.bounded_iff]
    exact ⟨fun ⟨⟨hz, hb⟩, hc⟩ => ⟨hz, hb, hc⟩, fun ⟨hz, hb, hc⟩ => ⟨⟨hz, hb⟩, hc⟩⟩
  | mbc5 r =>
    have hb : r.bank ≤ 0x1FF ↔ r.bank.toNat < 2 ^ 9 := by
      rw [UInt16.le_iff_toNat_le]
      exact Nat.lt_succ_iff.symm
    rw [Banked, hb, le_mask_iff (n := 2 ^ 4) rfl]
    exact ⟨fun ⟨hb, hr⟩ => ⟨hb, hr⟩, fun ⟨hb, hr⟩ => ⟨hb, hr⟩⟩

/-- The blocks of video memory that a transfer can have as its target. -/
theorem Bus.blockAddress_eq_iff {a : UInt16} :
    blockAddress a = a ↔ ∃ k, a.toNat = 0x8000 + 16 * k ∧ a.toNat < 0xA000 := by
  constructor
  · intro h
    have ha := toNat_blockAddress a
    rw [h] at ha
    exact ⟨a.toNat / 16 % 512, by omega, by omega⟩
  · rintro ⟨k, hk, hu⟩
    exact blockAddress_eq_self (by omega) hu (by omega)

/-! ## Well-formed machines -/

/-- The machine is a console of the origin, whatever state it is in. -/
def Origin.Builds (o : Origin) (m : Machine) : Prop :=
  ∃ now fresh, o.powerOn now = .ok fresh ∧ m.hardware = fresh.hardware

theorem Origin.Builds.ramSize {o : Origin} {m : Machine} (h : o.Builds m) :
    m.core.bus.slot.ram.size = o.cartridge.ramSize := by
  obtain ⟨now, fresh, hf, hh⟩ := h
  have hr : m.hardware.slot.ramSize = fresh.hardware.slot.ramSize := by rw [hh]
  exact hr.trans (o.ramSize_eq_of_powerOn hf)

theorem Origin.Builds.consistent {o : Origin} {m : Machine} (h : o.Builds m) :
    m.hardware.Consistent := by
  obtain ⟨now, fresh, hf, hh⟩ := h
  rw [hh]
  exact (o.inRange_powerOn hf).bus.consistent

theorem Origin.Builds.of_hardware {o : Origin} {m m' : Machine} (h : o.Builds m)
    (hh : m'.hardware = m.hardware) : o.Builds m' := by
  obtain ⟨now, fresh, hf, hm⟩ := h
  exact ⟨now, fresh, hf, hh.trans hm⟩

namespace Machine

/-- The numbers that a machine of an origin keeps to. -/
structure WellFormed (o : Origin) (m : Machine) : Prop where
  built : o.Builds m
  flags : m.core.cpu.f &&& 0x0F = 0
  enableDelay : m.core.cpu.enableDelay ≤ 2
  requests : m.core.bus.requests ≤ 0x1F
  enables : m.core.bus.enables ≤ 0x1F
  controller : m.core.bus.slot.controller.Banked
  ramSize : m.core.bus.slot.ram.size = o.cartridge.ramSize
  line : m.core.bus.video.ly ≤ 153
  vblank : 144 ≤ m.core.bus.video.ly ↔ m.core.bus.video.mode = .vblank
  modeClock : m.core.bus.video.clock < m.core.bus.video.modeDots
  transfer : 172 ≤ m.core.bus.video.transferDots ∧ m.core.bus.video.transferDots ≤ 289
  sprites : m.core.bus.video.spriteCount ≤ 10
  /-- There are ten places for sprites, and a position is two words. -/
  slots : m.core.bus.video.slots.length = 10 ∧ ∀ s ∈ m.core.bus.video.slots, s.Storable
  shades : m.core.bus.video.shades.All (· ≤ 3)
  workBank : 1 ≤ m.core.bus.workBank ∧ m.core.bus.workBank ≤ 7
  objects : m.core.bus.objectTransfer.remaining ≤ 640 ∧ m.core.bus.objectTransfer.delay ≤ 8
  target : ∃ k, m.core.bus.blockTransfer.target.toNat = 0x8000 + 16 * k ∧
    m.core.bus.blockTransfer.target.toNat < 0xA000
  blocks : m.core.bus.blockTransfer.blocks ≤ 0x80
  stall : m.core.bus.stall ≤ 8192
  overshoot : m.overshoot ≤ 8192

/-- The same in terms of the parts. -/
structure PartsInRange (m : Machine) : Prop where
  cpu : m.core.cpu.InRange
  requests : Interrupt.OnLines m.core.bus.requests
  enables : Interrupt.OnLines m.core.bus.enables
  slot : m.core.bus.slot.InRange
  video : m.core.bus.video.InRange
  workBank : 1 ≤ m.core.bus.workBank ∧ m.core.bus.workBank < 8
  objectTransfer : m.core.bus.objectTransfer.InRange
  bounded : m.Bounded

variable {o : Origin} {m m' fresh : Machine} {now : UInt64}

theorem InRange.parts (h : m.InRange) : m.PartsInRange where
  cpu := h.cpu
  requests := h.bus.requests
  enables := h.bus.enables
  slot := h.bus.slot
  video := h.bus.video
  workBank := h.bus.workBank
  objectTransfer := h.bus.objectTransfer
  bounded := h.bounded

theorem Evolves.parts (he : Evolves m m') (h : m.PartsInRange) : m'.PartsInRange where
  cpu := he.cpu h.cpu
  requests := he.bus.requests h.requests
  enables := he.bus.enables h.enables
  slot := he.bus.slot h.slot
  video := he.bus.video h.video
  workBank := he.bus.workBank h.workBank
  objectTransfer := he.bus.objectTransfer h.objectTransfer
  bounded := he.bounded h.bounded

/-! ### The parts tell all the numbers -/

theorem and_lower_half_iff (f : UInt8) : f &&& 0x0F = 0 ↔ f &&& 0xF0 = f := by
  have hf : f &&& 0xF0 ||| f &&& 0x0F = f := by
    apply UInt8.eq_of_toBitVec_eq
    exact BitVec.and_or_distrib_left.symm.trans BitVec.and_allOnes
  constructor
  · intro h
    rwa [h, UInt8.or_zero] at hf
  · intro h
    rw [← h, UInt8.and_assoc]
    exact UInt8.and_zero

theorem wellFormed_iff : WellFormed o m ↔ o.Builds m ∧ m.PartsInRange := by
  constructor
  · intro h
    have hvideo : m.core.bus.video.InRange := {
      content := {
        color := h.built.consistent.color
        transferMin := h.transfer.1
        transferMax := h.transfer.2
        spriteCount := h.sprites
        slots_length := h.slots.1
        slots := h.slots.2
        shades := fun b hb => (le_mask_iff rfl).mp (h.shades b hb) }
      position := Video.positionInRange_iff.mpr ⟨h.line, h.modeClock⟩
      line := Video.modeMatchesLine_iff.mpr h.vblank }
    exact ⟨h.built, {
      cpu := ⟨(and_lower_half_iff _).mp h.flags, h.enableDelay⟩
      requests := (le_mask_iff rfl).mp h.requests
      enables := (le_mask_iff rfl).mp h.enables
      slot := Controller.banked_iff.mp h.controller
      video := hvideo
      workBank := ⟨h.workBank.1, Nat.lt_succ_of_le h.workBank.2⟩
      objectTransfer := ⟨h.objects.1, h.objects.2⟩
      bounded := ⟨⟨Bus.blockAddress_eq_iff.mpr h.target, h.blocks⟩, h.stall, h.overshoot⟩ }⟩
  · intro ⟨hbuilt, h⟩
    have hposition := Video.positionInRange_iff.mp h.video.position
    exact {
      built := hbuilt
      flags := (and_lower_half_iff _).mpr h.cpu.flags
      enableDelay := h.cpu.enableDelay
      requests := (le_mask_iff rfl).mpr h.requests
      enables := (le_mask_iff rfl).mpr h.enables
      controller := Controller.banked_iff.mpr h.slot
      ramSize := hbuilt.ramSize
      line := hposition.1
      vblank := Video.modeMatchesLine_iff.mp h.video.line
      modeClock := hposition.2
      transfer := ⟨h.video.content.transferMin, h.video.content.transferMax⟩
      sprites := h.video.content.spriteCount
      slots := ⟨h.video.content.slots_length, h.video.content.slots⟩
      shades := fun b hb => (le_mask_iff rfl).mpr (h.video.content.shades b hb)
      workBank := ⟨h.workBank.1, Nat.le_of_lt_succ h.workBank.2⟩
      objects := ⟨h.objectTransfer.remaining, h.objectTransfer.delay⟩
      target := Bus.blockAddress_eq_iff.mp h.bounded.blockTransfer.target
      blocks := h.bounded.blockTransfer.blocks
      stall := h.bounded.stall
      overshoot := h.bounded.overshoot }

/-! ### What leads from well-formed machines to others -/

theorem wellFormed_powerOn (h : o.powerOn now = .ok m) : WellFormed o m :=
  wellFormed_iff.mpr ⟨⟨now, m, h, rfl⟩, (o.inRange_powerOn h).parts⟩

theorem WellFormed.evolves (h : WellFormed o m) (he : Evolves m m') : WellFormed o m' := by
  obtain ⟨hbuilt, hparts⟩ := wellFormed_iff.mp h
  exact wellFormed_iff.mpr ⟨hbuilt.of_hardware he.hardware, he.parts hparts⟩

/-- The whole machine is in range after a snapshot, and so it is well-formed. -/
theorem wellFormed_of_load {blob : Bytes} (h : o.Builds m) (hl : m.load blob = .ok m') :
    WellFormed o m' := by
  obtain ⟨_, _, _, hloaded⟩ := loaded_of_load h.consistent hl
  exact wellFormed_iff.mpr ⟨h.of_hardware hloaded.kept.hardware, hloaded.kept.inRange.parts⟩

end Machine

/-! ## Sessions -/

namespace Session

open Machine

/-- The session plays the origin's cartridge on the origin's console. -/
structure Plays (s : Session) (o : Origin) : Prop where
  cartridge : s.cartridge = o.cartridge
  model : s.settings.model = o.model
  bootRom? : s.settings.bootRom? = o.bootRom?
  sampleRate : s.settings.sampleRate = o.sampleRate

variable {o : Origin} {s s' : Session} {now : UInt64}

/-- A reset is power-on with RAM and clock of the old slot. -/
theorem eq_of_reset (hp : s.Plays o) (h : s.reset now.toNat = .ok s') :
    ∃ fresh, o.powerOn now = .ok fresh ∧
      s'.machine = fresh.withSlot (s.machine.core.bus.slot.reset o.cartridge) := by
  have hnew : Machine.new s.cartridge s.settings.model s.settings.bootRom? s.settings.sampleRate
      now.toNat = o.powerOn now := by
    rw [hp.cartridge, hp.model, hp.bootRom?, hp.sampleRate]
    rfl
  rw [reset, hnew] at h
  cases hf : o.powerOn now with
  | error failure =>
    rw [hf] at h
    cases h
  | ok fresh =>
    rw [hf] at h
    cases h
    exact ⟨fresh, rfl, by rw [← hp.cartridge]; rfl⟩

theorem wellFormed_of_reset (hp : s.Plays o) (hm : WellFormed o s.machine)
    (h : s.reset now.toNat = .ok s') : WellFormed o s'.machine := by
  obtain ⟨fresh, hf, he⟩ := eq_of_reset hp h
  rw [he]
  apply (wellFormed_powerOn hf).evolves
  apply evolves_withSlot
  · have hslot : fresh.core.bus.slot.hardware = (Slot.insert o.cartridge now.toNat).hardware := by
      rcases o.eq_of_powerOn hf with ⟨_, rfl⟩ | ⟨rom, _, rfl⟩
      · rfl
      · rfl
    rw [hslot]
    exact Slot.hardware_reset hm.ramSize now.toNat
  · have hparts := (wellFormed_iff.mp hm).2
    exact fun _ => hparts.slot.reset o.cartridge

def blank : Session where
  machine := Origin.blank.booted 0
  cartridge := .blank
  settings := {}
  audio := .empty 0

theorem plays_blank : blank.Plays .blank := ⟨rfl, rfl, rfl, rfl⟩

end Session

/-! ## The invariant -/

namespace Machine

/-- A console comes well-formed from power-on, and stays so through steps, budgets that end
early, buttons, the clock and the battery image of the cartridge and resets. Every snapshot
that is accepted, by a console in whatever state, makes it well-formed. -/
theorem wellFormed_invariant (o : Origin) :
    (∀ now m, o.powerOn now = .ok m → WellFormed o m) ∧
    (∀ m a, WellFormed o m → WellFormed o (m.perform a)) ∧
    (∀ (s s' : Session) (now : UInt64), s.Plays o → WellFormed o s.machine →
      s.reset now.toNat = .ok s' → WellFormed o s'.machine) ∧
    ∀ m blob m', o.Builds m → m.load blob = .ok m' → WellFormed o m' :=
  ⟨fun _ _ h => wellFormed_powerOn h, fun m a h => h.evolves (evolves_perform a m),
    fun _ _ _ hp hm h => Session.wellFormed_of_reset hp hm h,
    fun _ _ _ h hl => wellFormed_of_load h hl⟩

/-- The blank console is switched on, runs for a frame, is reset, and takes the snapshot of
that frame when it is switched on again. -/
theorem wellFormed_invariant_blank :
    WellFormed .blank (Origin.blank.booted 0) ∧
    WellFormed .blank ((Origin.blank.booted 0).perform (.runFor 70224)) ∧
    (∃ s', Session.blank.reset 1 = .ok s' ∧ WellFormed .blank s'.machine) ∧
    ∃ m', (Origin.blank.booted 1).load
      ((Origin.blank.booted 0).perform (.runFor 70224)).snapshot = .ok m' ∧
        WellFormed .blank m' := by
  obtain ⟨hpower, hperform, hreset, hload⟩ := wellFormed_invariant .blank
  have hfresh := hpower 0 _ (Origin.powerOn_blank 0)
  have hrun : Genuine .blank ((Origin.blank.booted 0).perform (.runFor 70224)) :=
    .perform _ (.powerOn 0 (Origin.powerOn_blank 0))
  have hl := load_snapshot hrun.reachable.inRange hrun.dots_le
    (hrun.reachable.hardware (Origin.powerOn_blank 1)).symm hrun.reachable.ramSize_lt
  refine ⟨hfresh, hperform _ _ hfresh, ⟨_, rfl, ?_⟩, _, hl, ?_⟩
  · exact hreset Session.blank _ 1 Session.plays_blank hfresh rfl
  · exact hload _ _ _ ⟨1, _, Origin.powerOn_blank 1, rfl⟩ hl

end Machine

end DotMatrix
