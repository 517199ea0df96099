import DotMatrix.Bus.Advance
import DotMatrix.Proofs.Bus.Transfer
import DotMatrix.Proofs.Cartridge.Slot
import DotMatrix.Proofs.Interrupt
import DotMatrix.Proofs.Joypad
import DotMatrix.Proofs.Sound.Range
import DotMatrix.Proofs.Timer
import DotMatrix.Proofs.Video.Range

/-!
# The ranges of the bus

All that hangs on the bus keeps to its ranges, whoever writes to it and however many
cycles pass. `Evolves` is what every operation of the bus does: the hardware stays, each
range is kept without help from the others, and so is the pace of the resampler.
-/
namespace DotMatrix.Bus

/-- The target stands at a block of video memory. -/
structure BlockTransfer.InRange (t : BlockTransfer) : Prop where
  target : blockAddress t.target = t.target
  blocks : t.blocks ≤ maxBlocks

structure ObjectTransfer.InRange (t : ObjectTransfer) : Prop where
  remaining : t.remaining ≤ objectCycles
  delay : t.delay ≤ objectDelay

/-- What stays the same for as long as the console is on. -/
structure Hardware where
  model : Model
  cgb : Bool
  slot : Slot.Hardware
  bootRom? : Option BootRom
  video : Bool × Bool
  sound : Bool × Nat

def hardware (b : Bus) : Hardware where
  model := b.model
  cgb := b.cgb
  slot := b.slot.hardware
  bootRom? := b.bootRom?
  video := b.video.features
  sound := b.sound.config

structure InRange (b : Bus) : Prop where
  slot : b.slot.InRange
  video : b.video.InRange
  sound : b.sound.InRange
  timer : b.timer.InRange
  joypad : b.joypad.InRange
  requests : Interrupt.OnLines b.requests
  enables : Interrupt.OnLines b.enables
  bootRom : b.bootRomPresent = true
  workBank : 1 ≤ b.workBank ∧ b.workBank < 8
  blockTransfer : b.blockTransfer.InRange
  objectTransfer : b.objectTransfer.InRange

/-- What the hardware of every console has: whatever decodes the colour features shows
them, and the rate of the host is supported. -/
structure Hardware.Consistent (h : Hardware) : Prop where
  color : h.video.1 = true → h.video.2 = true
  minRate : Sound.minSampleRate ≤ h.sound.2
  maxRate : h.sound.2 ≤ Sound.maxSampleRate

/-- The hardware stays, and each part that was in range still is. -/
structure Maintains (b b' : Bus) : Prop where
  hardware : b'.hardware = b.hardware
  slot : b.slot.InRange → b'.slot.InRange
  video : b.video.InRange → b'.video.InRange
  sound : b.sound.InRange → b'.sound.InRange
  timer : b.timer.InRange → b'.timer.InRange
  joypad : b.joypad.InRange → b'.joypad.InRange
  requests : Interrupt.OnLines b.requests → Interrupt.OnLines b'.requests
  enables : Interrupt.OnLines b.enables → Interrupt.OnLines b'.enables
  bootRom : b.bootRomPresent = true → b'.bootRomPresent = true
  workBank : 1 ≤ b.workBank ∧ b.workBank < 8 → 1 ≤ b'.workBank ∧ b'.workBank < 8
  blockTransfer : b.blockTransfer.InRange → b'.blockTransfer.InRange
  objectTransfer : b.objectTransfer.InRange → b'.objectTransfer.InRange

/-- What every operation of the bus does. -/
structure Evolves (b b' : Bus) : Prop extends Maintains b b' where
  paced : b.sound.InRange → b.sound.resampler.Paced → b'.sound.resampler.Paced

variable {a b c : Bus}

theorem InRange.consistent (h : b.InRange) : b.hardware.Consistent where
  color := h.video.content.color
  minRate := h.sound.resampler.supported.min
  maxRate := h.sound.resampler.supported.max

theorem Maintains.refl (b : Bus) : Maintains b b :=
  ⟨rfl, id, id, id, id, id, id, id, id, id, id, id⟩

theorem Maintains.trans (h : Maintains a b) (h' : Maintains b c) : Maintains a c where
  hardware := h'.hardware.trans h.hardware
  slot := h'.slot ∘ h.slot
  video := h'.video ∘ h.video
  sound := h'.sound ∘ h.sound
  timer := h'.timer ∘ h.timer
  joypad := h'.joypad ∘ h.joypad
  requests := h'.requests ∘ h.requests
  enables := h'.enables ∘ h.enables
  bootRom := h'.bootRom ∘ h.bootRom
  workBank := h'.workBank ∘ h.workBank
  blockTransfer := h'.blockTransfer ∘ h.blockTransfer
  objectTransfer := h'.objectTransfer ∘ h.objectTransfer

theorem Maintains.inRange (h : Maintains a b) (ha : a.InRange) : b.InRange where
  slot := h.slot ha.slot
  video := h.video ha.video
  sound := h.sound ha.sound
  timer := h.timer ha.timer
  joypad := h.joypad ha.joypad
  requests := h.requests ha.requests
  enables := h.enables ha.enables
  bootRom := h.bootRom ha.bootRom
  workBank := h.workBank ha.workBank
  blockTransfer := h.blockTransfer ha.blockTransfer
  objectTransfer := h.objectTransfer ha.objectTransfer

theorem Evolves.refl (b : Bus) : Evolves b b := ⟨.refl b, fun _ => id⟩

theorem Evolves.trans (h : Evolves a b) (h' : Evolves b c) : Evolves a c where
  toMaintains := h.toMaintains.trans h'.toMaintains
  paced ha := h'.paced (h.sound ha) ∘ h.paced ha

theorem evolves_repeat {f : Bus → Bus} (hf : ∀ b, Evolves b (f b)) (n : Nat) (b : Bus) :
    Evolves b (Nat.repeat f n b) := by
  induction n with
  | zero => exact .refl b
  | succ n ih => exact ih.trans (hf _)

/-! ## One component -/

theorem evolves_slot {s : Slot} (hh : s.hardware = b.slot.hardware)
    (hr : b.slot.InRange → s.InRange) : Evolves b { b with slot := s } :=
  { Evolves.refl b with
    hardware := by simp only [hardware, hh]
    slot := hr }

theorem evolves_video {v : Video} (hf : v.features = b.video.features)
    (hr : b.video.InRange → v.InRange) : Evolves b { b with video := v } :=
  { Evolves.refl b with
    hardware := by simp only [hardware, hf]
    video := hr }

theorem evolves_requests {requests : UInt8}
    (hr : Interrupt.OnLines b.requests → Interrupt.OnLines requests) :
    Evolves b { b with requests } :=
  { Evolves.refl b with requests := hr }

theorem evolves_timer {t : Timer} (hr : b.timer.InRange → t.InRange) :
    Evolves b { b with timer := t } :=
  { Evolves.refl b with timer := hr }

theorem evolves_joypad {j : Joypad} (hr : b.joypad.InRange → j.InRange) :
    Evolves b { b with joypad := j } :=
  { Evolves.refl b with joypad := hr }

theorem evolves_sound {s : Sound} (hc : s.config = b.sound.config)
    (hr : b.sound.InRange → s.InRange)
    (hp : b.sound.InRange → b.sound.resampler.Paced → s.resampler.Paced) :
    Evolves b { b with sound := s } :=
  { Evolves.refl b with
    hardware := by simp only [hardware, hc]
    sound := hr
    paced := hp }

theorem evolves_blockTransfer {t : BlockTransfer} (hr : b.blockTransfer.InRange → t.InRange) :
    Evolves b { b with blockTransfer := t } :=
  { Evolves.refl b with blockTransfer := hr }

theorem evolves_objectTransfer {t : ObjectTransfer}
    (hr : b.objectTransfer.InRange → t.InRange) : Evolves b { b with objectTransfer := t } :=
  { Evolves.refl b with objectTransfer := hr }

theorem evolves_stall (b : Bus) (n : Nat) : Evolves b { b with stall := n } :=
  { Evolves.refl b with }

theorem evolves_oam (b : Bus) (i : Nat) (value : UInt8) :
    Evolves b { b with video := { b.video with oam := b.video.oam.set i value } } :=
  evolves_video rfl fun h => h.of_eq rfl rfl rfl rfl

/-! ## Transfers -/

theorem features_copyByte (b : Bus) : b.copyByte.video.features = b.video.features :=
  Video.features_writeVram _ _ _

theorem inRange_copyByte {b : Bus} (h : b.video.InRange) : b.copyByte.video.InRange :=
  h.writeVram _ _

/-- The target is on a block again once the block is copied. -/
theorem evolves_copyBlock (b : Bus) : Evolves b b.copyBlock := by
  obtain ⟨hrest, htransfer⟩ := copied_copyBlock b
  have hf : b.copyBlock.video.features = b.video.features :=
    repeat_unchanged (g := fun c : Bus => c.video.features) features_copyByte blockSize b
  have hr (h : b.video.InRange) : b.copyBlock.video.InRange :=
    repeat_invariant (P := fun c : Bus => c.video.InRange) (fun _ => inRange_copyByte) blockSize h
  have ht (h : b.blockTransfer.InRange) : b.copyBlock.blockTransfer.InRange := by
    constructor
    · rw [copyBlock, target_repeat_copyByte]
      exact blockAddress_repeat h.target
    · rw [htransfer]
      exact h.blocks
  rw [hrest]
  exact (evolves_video hf hr).trans (evolves_blockTransfer ht)

theorem evolves_countBlock (b : Bus) : Evolves b b.countBlock := by
  have hs := evolves_stall b (b.stall + b.blockStall)
  exact hs.trans (evolves_blockTransfer fun h =>
    ⟨h.target, Nat.le_trans (Nat.sub_le _ _) h.blocks⟩)

theorem evolves_transferNext (b : Bus) : Evolves b b.transferNext := by
  rw [transferNext_eq]
  split
  · exact (evolves_copyBlock b).trans (evolves_countBlock _)
  · exact .refl b

theorem evolves_transferRest (b : Bus) : Evolves b b.transferRest :=
  evolves_repeat evolves_transferNext _ b

theorem evolves_startWhole (b : Bus) : Evolves b b.startWhole :=
  evolves_blockTransfer fun h => ⟨h.target, h.blocks⟩

theorem evolves_payWhole (b : Bus) (blocks : Nat) : Evolves b (b.payWhole blocks) := by
  have hs := evolves_stall b (b.stall + blocks * b.blockStall)
  exact hs.trans (evolves_blockTransfer fun h => ⟨h.target, Nat.zero_le _⟩)

theorem evolves_transferAll (b : Bus) (blocks : Nat) : Evolves b (b.transferAll blocks) := by
  have hmoved := (evolves_startWhole b).trans (evolves_repeat evolves_copyBlock blocks _)
  rw [transferAll_eq]
  exact hmoved.trans (evolves_payWhole _ blocks)

theorem evolves_startPaced (b : Bus) {blocks : Nat} (hn : blocks ≤ maxBlocks) :
    Evolves b (b.startPaced blocks) :=
  evolves_blockTransfer fun h => ⟨h.target, hn⟩

theorem evolves_transferPaced (b : Bus) {blocks : Nat} (hn : blocks ≤ maxBlocks) :
    Evolves b (b.transferPaced blocks) := by
  have hstart := evolves_startPaced b hn
  rw [transferPaced_eq]
  split
  · exact hstart.trans (evolves_transferNext _)
  · exact hstart

theorem evolves_controlBlocks (b : Bus) (value : UInt8) : Evolves b (b.controlBlocks value) := by
  have hn : value.toNat % 0x80 + 1 ≤ maxBlocks := Nat.mod_lt _ (Nat.zero_lt_succ _)
  unfold controlBlocks
  simp only
  split
  · exact evolves_transferPaced b hn
  split
  · exact evolves_blockTransfer fun h => ⟨h.target, h.blocks⟩
  · exact evolves_transferAll b _

theorem BlockTransfer.InRange.aim {t : BlockTransfer} (h : t.InRange) (address : UInt16)
    (value : UInt8) : (t.aim address value).InRange := by
  unfold BlockTransfer.aim
  simp only
  split
  · exact ⟨h.target, h.blocks⟩
  · exact ⟨h.target, h.blocks⟩
  · exact ⟨blockAddress_idem _, h.blocks⟩
  · exact ⟨blockAddress_idem _, h.blocks⟩
  · exact h

theorem evolves_writeBlockTransfer (b : Bus) (address : UInt16) (value : UInt8) :
    Evolves b (b.writeBlockTransfer address value) := by
  rw [writeBlockTransfer]
  split
  · exact evolves_controlBlocks b value
  split
  · exact .refl b
  · exact evolves_blockTransfer fun h => h.aim address value

theorem evolves_requestObjects (b : Bus) (page : UInt8) : Evolves b (b.requestObjects page) :=
  evolves_objectTransfer fun h => ⟨h.remaining, Nat.le_refl _⟩

theorem ObjectTransfer.InRange.wait {t : ObjectTransfer} (h : t.InRange) (cycles : Nat) :
    (t.wait cycles).1.InRange := by
  rw [ObjectTransfer.wait]
  split
  · exact h
  dsimp only
  split
  · exact ⟨Nat.le_refl _, Nat.zero_le _⟩
  · exact ⟨h.remaining, Nat.le_trans (Nat.sub_le _ _) h.delay⟩

theorem evolves_foldl_copyObjectByte (indices : List Nat) (b : Bus) :
    Evolves b (indices.foldl copyObjectByte b) := by
  induction indices generalizing b with
  | nil => exact .refl b
  | cons index indices ih => exact (evolves_oam b index _).trans (ih _)

theorem evolves_moveObjects (cycles : Nat) (b : Bus) : Evolves b (b.moveObjects cycles) := by
  rw [moveObjects]
  dsimp only
  split
  · exact .refl b
  · apply (evolves_foldl_copyObjectByte _ b).trans
    apply evolves_objectTransfer
    rw [foldl_copyObjectByte]
    exact fun h => ⟨Nat.le_trans (Nat.sub_le _ _) h.remaining, h.delay⟩

theorem evolves_advanceObjects (cycles : Nat) (b : Bus) : Evolves b (b.advanceObjects cycles) :=
  (evolves_objectTransfer fun h => h.wait cycles).trans (evolves_moveObjects _ _)

/-! ## The passing of cycles -/

theorem evolves_advanceTimer (cycles : Nat) (b : Bus) : Evolves b (b.advanceTimer cycles) := by
  have ht : Evolves b { b with timer := (b.timer.advance cycles b.requests).1 } :=
    evolves_timer fun h => h.advance cycles b.requests
  exact ht.trans (evolves_requests fun h => Timer.onLines_advance h cycles b.timer)

theorem evolves_advanceVideo (dots : Nat) (b : Bus) : Evolves b (b.advanceVideo dots) := by
  have hv : Evolves b { b with video := (b.video.advance dots b.requests).video } :=
    evolves_video (Video.features_advance _ _ _) fun h => h.advance dots b.requests
  apply hv.trans
  apply (evolves_requests fun h => Video.onLines_advance h dots b.video).trans
  exact evolves_repeat evolves_transferNext _ _

theorem evolves_advance (cycles : Nat) (b : Bus) : Evolves b (b.advance cycles).1 := by
  apply (evolves_advanceTimer cycles b).trans
  apply (evolves_advanceVideo (b.dotsIn cycles) _).trans
  apply (evolves_sound (Sound.config_advance (b.dotsIn cycles) _)
    (fun h => h.advance _) (fun h hp => h.paced_advance hp _)).trans
  apply (evolves_advanceObjects cycles _).trans
  exact evolves_slot (Slot.hardware_advance _ _) fun h => h.advance _

/-! ## Writes -/

theorem evolves_writeVideo (b : Bus) (address : UInt16) (value : UInt8) :
    Evolves b (b.writeVideo address value) := by
  have hv : Evolves b { b with video := (b.video.write address value b.requests).1 } :=
    evolves_video (Video.features_write _ _ _ _) fun h => h.write address value b.requests
  have hw := hv.trans (evolves_requests fun h => Video.onLines_write h b.video address value)
  rw [writeVideo]
  simp only
  split
  · exact hw.trans (evolves_transferRest _)
  split
  · exact hw.trans (evolves_requestObjects _ value)
  · exact hw

theorem workBankOf_bounds (value : UInt8) : 1 ≤ workBankOf value ∧ workBankOf value < 8 := by
  rw [workBankOf]
  omega

theorem evolves_writeRegion (b : Bus) (region : Region) (address : UInt16) (value : UInt8) :
    Evolves b (b.writeRegion region address value) := by
  cases region with
  | rom => exact evolves_slot (Slot.hardware_writeRom _ _ _) fun h => h.writeRom address value
  | videoRam =>
    exact evolves_video (Video.features_writeVram _ _ _) fun h => h.writeVram address value
  | cartridgeRam =>
    exact evolves_slot (Slot.hardware_writeRam _ _ _) fun h => h.writeRam address value
  | workRam offset => exact { Evolves.refl b with }
  | objects index => exact evolves_oam b index value
  | joypad =>
    have hj : Evolves b { b with joypad := (b.joypad.write value b.requests).1 } :=
      evolves_joypad fun _ => Joypad.inRange_write b.joypad value b.requests
    exact hj.trans (evolves_requests fun h => Joypad.onLines_write h b.joypad value)
  | timer =>
    have ht : Evolves b { b with timer := (b.timer.write address value b.requests).1 } :=
      evolves_timer fun h => h.write address value b.requests
    exact ht.trans (evolves_requests fun h => Timer.onLines_write h b.timer address value)
  | requests => exact evolves_requests fun _ => Interrupt.onLines_and_lines value
  | sound =>
    apply evolves_sound
    · simp only [Sound.config, Sound.cgb_write, Sound.resampler_write]
    · exact fun h => h.write address value
    · rw [Sound.resampler_write]
      exact fun _ hp => hp
  | video => exact evolves_writeVideo b address value
  | speed =>
    simp only [writeRegion]
    split
    · exact { Evolves.refl b with }
    · exact .refl b
  | bootSwitch =>
    simp only [writeRegion]
    split
    · exact .refl b
    · exact { Evolves.refl b with bootRom := fun _ => rfl }
  | blockTransfer =>
    simp only [writeRegion]
    split
    · exact evolves_writeBlockTransfer b address value
    · exact .refl b
  | workBank =>
    simp only [writeRegion]
    split
    · exact { Evolves.refl b with workBank := fun _ => workBankOf_bounds value }
    · exact .refl b
  | highRam index => exact { Evolves.refl b with }
  | enables => exact { Evolves.refl b with enables := fun _ => Interrupt.onLines_and_lines value }
  | nothing => exact .refl b

theorem evolves_write (b : Bus) (address : UInt16) (value : UInt8) :
    Evolves b (b.write address value) := by
  unfold write
  simp only
  split
  · exact .refl b
  split
  · exact evolves_writeRegion b _ address value
  · exact .refl b

/-! ## What the processor and the host do besides -/

theorem evolves_resetDivider (b : Bus) : Evolves b b.resetDivider := by
  have ht : Evolves b { b with timer := (b.timer.resetDivider b.requests).1 } :=
    evolves_timer fun h => h.resetDivider b.requests
  exact ht.trans (evolves_requests fun h => Timer.onLines_resetDivider h b.timer)

theorem evolves_switchSpeed (b : Bus) : Evolves b b.switchSpeed := by
  have hs : Evolves b { b with doubleSpeed := !b.doubleSpeed, speedArmed := false } :=
    { Evolves.refl b with }
  exact hs.trans (evolves_resetDivider _)

theorem evolves_press (b : Bus) (buttons : UInt8) : Evolves b (b.press buttons) := by
  have hj : Evolves b { b with joypad := (b.joypad.press buttons b.requests).1 } :=
    evolves_joypad fun h => h.press buttons b.requests
  exact hj.trans (evolves_requests fun h => Joypad.onLines_press h b.joypad buttons)

end DotMatrix.Bus
