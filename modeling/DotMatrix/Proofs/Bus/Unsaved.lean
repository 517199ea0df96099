import DotMatrix.Bus.Advance
import DotMatrix.Proofs.Bus.Transfer
import DotMatrix.Proofs.Video.Painter

/-!
# What no snapshot holds

Finished lines, frames of audio and the mark of the battery wait until the host takes them.
The bus adds to them and never looks at them: whatever it does, it does behind what waits
already. The buffers of the video unit and the cycles of a step are scratch: what they hold
stays until they are written anew, and nothing looks at it before.
-/
namespace DotMatrix

/-- What was left somewhere is there still, or has been written over. -/
def Fades {α : Type} (left? left'? : Option α) : Prop := left'? = left? ∨ left'? = none

theorem Fades.refl {α : Type} (left? : Option α) : Fades left? left? := .inl rfl

theorem Fades.eq_none {α : Type} {left? : Option α} (h : Fades none left?) : left? = none := by
  rcases h with h | h
  · exact h
  · exact h

theorem Fades.trans {α : Type} {a b c : Option α} (h : Fades a b) (h' : Fades b c) : Fades a c := by
  rcases h' with rfl | h'
  · exact h
  · exact .inr h'

/-! ## The slot -/

namespace Slot

/-- The slot as it is if the mark of the battery was `touched` before. -/
def behind (touched : Bool) (s : Slot) : Slot := { s with touched := touched || s.touched }

variable (touched : Bool) (s : Slot)

theorem behind_false : s.behind false = s := by
  simp only [behind, Bool.false_or]

theorem setRamByte_behind (i : Nat) (value : UInt8) :
    (s.behind touched).setRamByte i value = (s.setRamByte i value).behind touched := by
  by_cases h : i < s.ram.size
  · simp [setRamByte, behind, h]
  · simp [setRamByte, behind, h]

@[simp] theorem writeRam_behind (address : UInt16) (value : UInt8) :
    (s.behind touched).writeRam address value = (s.writeRam address value).behind touched := by
  cases h : s.controller.window with
  | closed => simp [writeRam, behind, h]
  | ram bank =>
    have hl : (s.behind touched).writeRam address value =
        (s.behind touched).setRamByte (s.cell bank address) value := by
      simp [writeRam, behind, h, cell]
    rw [hl, setRamByte_behind]
    simp [writeRam, h]
  | halfBytes =>
    have hl : (s.behind touched).writeRam address value =
        (s.behind touched).setRamByte (halfByteCell address) (value &&& 0x0F) := by
      simp [writeRam, behind, h]
    rw [hl, setRamByte_behind]
    simp [writeRam, h]
  | clock register =>
    by_cases hc : s.controller.clock?.isSome
    · simp [writeRam, behind, h, hc]
    · simp [writeRam, behind, h, hc]

@[simp] theorem advance_behind (dots : Nat) :
    (s.behind touched).advance dots = (s.advance dots).behind touched := by
  cases h : s.controller.clock? with
  | none => simp [advance, behind, h]
  | some clock => simp [advance, behind, h]

end Slot

/-! ## The video unit -/

namespace Video

/-- The unit as it is if `lines` waited for the host before, and with what is left in its
buffers from before. -/
def behind (lines : Array Scanline) (left? : Option LineBuffers) (v : Video) : Video :=
  { v with
    finished := lines ++ v.finished
    buffers := left?.getD v.buffers }

variable (lines : Array Scanline) (left? : Option LineBuffers) (v : Video)

@[simp] theorem enabled_behind : (v.behind lines left?).enabled = v.enabled := rfl

@[simp] theorem mode_behind : (v.behind lines left?).mode = v.mode := rfl

@[simp] theorem writeVram_behind (address : UInt16) (value : UInt8) :
    (v.behind lines left?).writeVram address value = (v.writeVram address value).behind lines left? := by
  cases h : v.secondBank with
  | false => simp [writeVram, behind, h]
  | true => simp [writeVram, behind, h]

theorem updateStat_behind (flags : UInt8) : (v.behind lines left?).updateStat flags =
    ((v.updateStat flags).1.behind lines left?, (v.updateStat flags).2) := rfl

theorem compareLine_behind : (v.behind lines left?).compareLine = v.compareLine.behind lines left? := by
  by_cases h : v.enabled
  · simp [compareLine, h]
    rfl
  · simp [compareLine, h]

theorem switchOn_behind (flags : UInt8) : (v.behind lines left?).switchOn flags =
    ((v.switchOn flags).1.behind lines left?, (v.switchOn flags).2) := by
  change ({ v with ly := 0, clock := 0 }.beginLine.behind lines left?).compareLine.updateStat flags = _
  rw [compareLine_behind]
  rfl

theorem writeControl_behind (value flags : UInt8) : (v.behind lines left?).writeControl value flags =
    ((v.writeControl value flags).1.behind lines left?, (v.writeControl value flags).2) := by
  have hnext : { v.behind lines left? with lcdc := value } = { v with lcdc := value }.behind lines left? := rfl
  simp only [writeControl, hnext, enabled_behind]
  split
  · rfl
  split
  · exact switchOn_behind lines left? _ flags
  · rfl

theorem writeColor_behind (address : UInt16) (value : UInt8) :
    (v.behind lines left?).writeColor address value = (v.writeColor address value).behind lines left? := by
  simp only [writeColor]
  split <;> rfl

@[simp] theorem write_behind (address : UInt16) (value flags : UInt8) :
    (v.behind lines left?).write address value flags =
      ((v.write address value flags).1.behind lines left?, (v.write address value flags).2) := by
  simp only [write]
  split
  case h_1 => exact writeControl_behind lines left? v value flags
  case h_5 =>
    change ({ v with lyc := value }.behind lines left?).compareLine.updateStat flags = _
    rw [compareLine_behind]
    rfl
  case h_12 =>
    change ((if v.cgb then _ else _), flags) = _
    by_cases hc : v.cgb
    · simp [hc, writeColor_behind]
    · simp [hc]
  all_goals rfl

/-- A line that is drawn leaves nothing of what was in the buffers. -/
theorem drawLine_behind : (v.behind lines left?).drawLine = v.drawLine.behind lines none := by
  have hpainted : (v.behind lines left?).painted = v.painted :=
    painted_of_buffers { v with finished := lines ++ v.finished } (left?.getD v.buffers)
  rw [drawLine, hpainted]
  simp only [drawLine, behind, Array.append_push]
  rfl

namespace Run

/-- The run of a unit for which `lines` waited before. -/
def behind (lines : Array Scanline) (left? : Option LineBuffers) (r : Run) : Run :=
  { r with video := r.video.behind lines left? }

variable (r : Run)

theorem nextMode_of_transfer (h : r.video.mode = .transfer) : r.nextMode =
    { r with
      video := { { r.video with clock := 0 }.drawLine with mode := .hblank }
      hblanks := r.hblanks + 1 } := by
  simp only [nextMode, h]

theorem nextMode_behind : ∃ left'?, Fades left? left'? ∧
    (r.behind lines left?).nextMode = r.nextMode.behind lines left'? := by
  cases h : r.video.mode with
  | scan =>
    refine ⟨left?, .refl left?, ?_⟩
    simp only [nextMode, behind, mode_behind, h]
    rfl
  | transfer =>
    have hd : { (r.behind lines left?).video with clock := 0 }.drawLine =
        { r.video with clock := 0 }.drawLine.behind lines none :=
      drawLine_behind lines left? { r.video with clock := 0 }
    refine ⟨none, .inr rfl, ?_⟩
    rw [nextMode_of_transfer (r.behind lines left?) h, nextMode_of_transfer r h, hd]
    rfl
  | hblank =>
    refine ⟨left?, .refl left?, ?_⟩
    simp only [nextMode, behind, mode_behind, h]
    by_cases hl : r.video.ly + 1 = screenHeight
    · simp only [Video.behind, hl, ite_true]
    · simp only [Video.behind, hl, ite_false]
      rfl
  | vblank =>
    refine ⟨left?, .refl left?, ?_⟩
    simp only [nextMode, behind, mode_behind, h]
    by_cases hl : r.video.ly = lastLine
    · simp only [Video.behind, hl, ite_true]
      rfl
    · simp only [Video.behind, hl, ite_false]

theorem settle_behind : (r.behind lines left?).settle = r.settle.behind lines left? := by
  simp only [settle, behind, compareLine_behind, updateStat_behind]

theorem tick_behind : ∃ left'?, Fades left? left'? ∧
    (r.behind lines left?).tick = r.tick.behind lines left'? := by
  have ht : (r.behind lines left?).tick =
      if r.video.clock + 1 < r.video.modeDots then
        { r with video := { r.video with clock := r.video.clock + 1 } }.behind lines left?
      else (r.behind lines left?).nextMode.settle := rfl
  rw [ht, tick]
  by_cases hc : r.video.clock + 1 < r.video.modeDots
  · rw [if_pos hc, if_pos hc]
    exact ⟨left?, .refl left?, rfl⟩
  · obtain ⟨left'?, hleft, hnext⟩ := nextMode_behind lines left? r
    rw [if_neg hc, if_neg hc, hnext, settle_behind]
    exact ⟨left'?, hleft, rfl⟩

theorem ticks_behind (dots : Nat) : ∃ left'?, Fades left? left'? ∧
    Nat.repeat tick dots (r.behind lines left?) = (Nat.repeat tick dots r).behind lines left'? := by
  induction dots with
  | zero => exact ⟨left?, .refl left?, rfl⟩
  | succ dots ih =>
    obtain ⟨first?, hfirst, hrun⟩ := ih
    obtain ⟨left'?, hleft, htick⟩ := tick_behind lines first? (Nat.repeat tick dots r)
    refine ⟨left'?, hfirst.trans hleft, ?_⟩
    rw [Nat.repeat, hrun, htick]
    rfl

end Run

theorem advance_behind (dots : Nat) (flags : UInt8) : ∃ left'?, Fades left? left'? ∧
    (v.behind lines left?).advance dots flags = (v.advance dots flags).behind lines left'? := by
  by_cases h : v.enabled
  · simp only [advance, enabled_behind, h, ite_true]
    exact Run.ticks_behind lines left? { video := v, flags } dots
  · refine ⟨left?, .refl left?, ?_⟩
    simp [advance, h, Run.behind]

end Video

/-! ## The sound unit -/

namespace Sound

/-- The unit as it is if `frames` waited for the host before. -/
def behind (frames : Array Audio.Frame) (s : Sound) : Sound := { s with frames := frames ++ s.frames }

variable (frames : Array Audio.Frame) (s : Sound)

theorem behind_empty : s.behind #[] = s := by
  simp only [behind, Array.empty_append]

theorem writePower_behind (value : UInt8) :
    (s.behind frames).writePower value = (s.writePower value).behind frames := by
  have hp : (s.behind frames).powered = s.powered := rfl
  simp only [writePower]
  rw [hp]
  split <;> rfl

theorem writePowered_behind (address : UInt16) (value : UInt8) :
    (s.behind frames).writePowered address value =
      (s.writePowered address value).behind frames := by
  simp only [writePowered]
  split <;> rfl

theorem writeUnpowered_behind (address : UInt16) (value : UInt8) :
    (s.behind frames).writeUnpowered address value =
      (s.writeUnpowered address value).behind frames := by
  simp only [writeUnpowered]
  split <;> rfl

@[simp] theorem write_behind (address : UInt16) (value : UInt8) :
    (s.behind frames).write address value = (s.write address value).behind frames := by
  have hw : (s.behind frames).write address value =
      if inWaveRam address then
        { s with waveRam := s.waveRam.set (s.waveCell address) value }.behind frames
      else if address = 0xFF26 then (s.behind frames).writePower value
      else if !isRegister address then s.behind frames
      else if s.powered then
        (behind frames { s with
          written := s.written.set (address.toNat - firstRegister) value }).writePowered
            address value
      else (s.behind frames).writeUnpowered address value := rfl
  rw [hw, writePower_behind, writePowered_behind, writeUnpowered_behind, write]
  split
  · rfl
  split
  · rfl
  split
  · rfl
  split <;> rfl

theorem clockSequencer_behind :
    (s.behind frames).clockSequencer = s.clockSequencer.behind frames := by
  have hstep : (s.behind frames).step = s.step := rfl
  simp only [clockSequencer, hstep]
  split <;> split <;> split <;> rfl

theorem advanceChannels_behind (dots : Nat) :
    (s.behind frames).advanceChannels dots = (s.advanceChannels dots).behind frames := by
  have ha : (s.behind frames).advanceChannels dots =
      if s.countdown - dots = 0 then (behind frames { s with
        swept := s.swept.mapSquare (Square.advance dots)
        square := s.square.advance dots
        wave := s.wave.advance s.waveRam dots
        noise := s.noise.advance dots
        countdown := s.countdown - dots }).clockSequencer
      else behind frames { s with
        swept := s.swept.mapSquare (Square.advance dots)
        square := s.square.advance dots
        wave := s.wave.advance s.waveRam dots
        noise := s.noise.advance dots
        countdown := s.countdown - dots } := rfl
  rw [ha, clockSequencer_behind, advanceChannels]
  split <;> rfl

theorem advanceWithin_behind (dots : Nat) :
    (s.behind frames).advanceWithin dots = (s.advanceWithin dots).behind frames := by
  have hm : (s.behind frames).mix = s.mix := rfl
  have hp : (s.behind frames).powered = s.powered := rfl
  have hc : (if s.powered then (s.behind frames).advanceChannels dots else s.behind frames) =
      (if s.powered then s.advanceChannels dots else s).behind frames := by
    rw [advanceChannels_behind]
    split <;> rfl
  simp only [advanceWithin, hm, hp, hc]
  generalize (if s.powered then s.advanceChannels dots else s) = t
  have hr : (t.behind frames).resampler = t.resampler := rfl
  rw [hr]
  cases t.resampler.advance dots s.mix with
  | mk resampler frame? =>
    cases frame? with
    | none => rfl
    | some frame => simp only [behind, Array.append_push]

@[simp] theorem advance_behind (dots : Nat) :
    (s.behind frames).advance dots = (s.advance dots).behind frames := by
  induction dots, s using advance.induct with
  | case1 s => rw [advance, if_pos rfl, advance, if_pos rfl]
  | case2 dots s hd run ih =>
    rw [advance, if_neg hd, advance.eq_def dots s, if_neg hd]
    change advance (dots - run) ((s.behind frames).advanceWithin run) = _
    rw [advanceWithin_behind]
    exact ih

end Sound

/-! ## The bus -/

/-- What no snapshot holds: what waits for the host, and what is left in scratch fields that
have not been written since. -/
structure Unsaved where
  touched : Bool := false
  lines : Array Video.Scanline := #[]
  frames : Array Audio.Frame := #[]
  buffers? : Option Video.LineBuffers := none
  cycles? : Option Nat := none

/-- What waits for the host stays, and what is left in scratch fields may fade. -/
structure Unsaved.Leaves (u u' : Unsaved) : Prop where
  touched : u'.touched = u.touched
  lines : u'.lines = u.lines
  frames : u'.frames = u.frames
  buffers : Fades u.buffers? u'.buffers?
  cycles : Fades u.cycles? u'.cycles?

theorem Unsaved.Leaves.refl (u : Unsaved) : u.Leaves u := ⟨rfl, rfl, rfl, .refl _, .refl _⟩

theorem Unsaved.Leaves.trans {u u' u'' : Unsaved} (h : u.Leaves u') (h' : u'.Leaves u'') :
    u.Leaves u'' where
  touched := h'.touched.trans h.touched
  lines := h'.lines.trans h.lines
  frames := h'.frames.trans h.frames
  buffers := h.buffers.trans h'.buffers
  cycles := h.cycles.trans h'.cycles

/-- Where nothing is left in scratch fields, nothing fades. -/
theorem Unsaved.Leaves.eq_of_none {u u' : Unsaved} (h : u.Leaves u') (hb : u.buffers? = none)
    (hc : u.cycles? = none) : u' = u := by
  have hbuffers : u'.buffers? = u.buffers? := hb ▸ (hb ▸ h.buffers).eq_none
  have hcycles : u'.cycles? = u.cycles? := hc ▸ (hc ▸ h.cycles).eq_none
  cases u
  cases u'
  simp only [Unsaved.mk.injEq]
  exact ⟨h.touched, h.lines, h.frames, hbuffers, hcycles⟩

namespace Bus

/-- The bus as it is if all that waits for the host waited before, and with what is left in
scratch fields from before. -/
def behind (u : Unsaved) (b : Bus) : Bus :=
  { b with
    slot := b.slot.behind u.touched
    video := b.video.behind u.lines u.buffers?
    sound := b.sound.behind u.frames }

variable (u : Unsaved) (b : Bus)

@[simp] theorem readUnlocked_behind (address : UInt16) :
    (b.behind u).readUnlocked address = b.readUnlocked address := by
  simp only [readUnlocked, readRegion]
  split <;> rfl

@[simp] theorem read_behind (address : UInt16) : (b.behind u).read address = b.read address := by
  rw [read, readUnlocked_behind]
  rfl

@[simp] theorem pending_behind : (b.behind u).pending = b.pending := rfl

@[simp] theorem reachable_behind (region : Region) :
    (b.behind u).reachable region = b.reachable region := by
  cases region <;> rfl

/-! ### Transfers -/

theorem copyByte_behind : (b.behind u).copyByte = b.copyByte.behind u := by
  simp only [copyByte, readUnlocked_behind]
  simp only [behind, Video.writeVram_behind]

theorem copyBlock_behind : (b.behind u).copyBlock = b.copyBlock.behind u :=
  repeat_comm (copyByte_behind u) blockSize b

theorem startWhole_behind : (b.behind u).startWhole = b.startWhole.behind u := rfl

theorem payWhole_behind (blocks : Nat) :
    (b.behind u).payWhole blocks = (b.payWhole blocks).behind u := rfl

theorem transferAll_behind (blocks : Nat) :
    (b.behind u).transferAll blocks = (b.transferAll blocks).behind u := by
  have hmoved : Nat.repeat copyBlock blocks (b.startWhole.behind u) =
      (Nat.repeat copyBlock blocks b.startWhole).behind u :=
    repeat_comm (copyBlock_behind u) blocks b.startWhole
  rw [transferAll_eq, transferAll_eq, startWhole_behind, hmoved, payWhole_behind]

theorem countBlock_behind : (b.behind u).countBlock = b.countBlock.behind u := rfl

theorem transferNext_behind : (b.behind u).transferNext = b.transferNext.behind u := by
  have ht : (b.behind u).blockTransfer = b.blockTransfer := rfl
  rw [transferNext_eq, transferNext_eq, ht, copyBlock_behind, countBlock_behind]
  split <;> rfl

theorem transferRest_behind : (b.behind u).transferRest = b.transferRest.behind u :=
  repeat_comm (transferNext_behind u) (b.blockTransfer.blocks + 1) b

theorem startPaced_behind (blocks : Nat) :
    (b.behind u).startPaced blocks = (b.startPaced blocks).behind u := rfl

theorem transferPaced_behind (blocks : Nat) :
    (b.behind u).transferPaced blocks = (b.transferPaced blocks).behind u := by
  rw [transferPaced_eq, transferPaced_eq, startPaced_behind, transferNext_behind]
  change (if !b.video.enabled || b.video.mode == .hblank then _ else _) = _
  split <;> rfl

theorem controlBlocks_behind (value : UInt8) :
    (b.behind u).controlBlocks value = (b.controlBlocks value).behind u := by
  have ht : (b.behind u).blockTransfer = b.blockTransfer := rfl
  simp only [controlBlocks, transferPaced_behind, transferAll_behind, ht]
  split
  · rfl
  split <;> rfl

theorem writeBlockTransfer_behind (address : UInt16) (value : UInt8) :
    (b.behind u).writeBlockTransfer address value = (b.writeBlockTransfer address value).behind u := by
  have ht : (b.behind u).blockTransfer = b.blockTransfer := rfl
  simp only [writeBlockTransfer, controlBlocks_behind, ht]
  split
  · rfl
  split <;> rfl

theorem copyObjectByte_behind (index : Nat) :
    (b.behind u).copyObjectByte index = (b.copyObjectByte index).behind u := by
  rw [copyObjectByte, readUnlocked_behind]
  rfl

theorem foldl_copyObjectByte_behind (indices : List Nat) :
    indices.foldl copyObjectByte (b.behind u) = (indices.foldl copyObjectByte b).behind u := by
  induction indices generalizing b with
  | nil => rfl
  | cons index indices ih => rw [List.foldl_cons, List.foldl_cons, copyObjectByte_behind, ih]

theorem advanceObjects_behind (cycles : Nat) :
    (b.behind u).advanceObjects cycles = (b.advanceObjects cycles).behind u := by
  have ht (t : ObjectTransfer) :
      { b.behind u with objectTransfer := t } = { b with objectTransfer := t }.behind u := rfl
  have hkept : (b.behind u).objectTransfer = b.objectTransfer := rfl
  simp only [advanceObjects, moveObjects, hkept, ht, foldl_copyObjectByte_behind]
  split <;> rfl

/-! ### Writes -/

theorem writeVideo_of_eq {b : Bus} {address : UInt16} {value : UInt8} {video : Video}
    {requests : UInt8} (h : b.video.write address value b.requests = (video, requests)) :
    b.writeVideo address value =
      if b.video.enabled && !video.enabled then { b with video, requests }.transferRest
      else if address = 0xFF46 then { b with video, requests }.requestObjects value
      else { b with video, requests } := by
  simp only [writeVideo, h]

theorem writeVideo_behind (address : UInt16) (value : UInt8) :
    (b.behind u).writeVideo address value = (b.writeVideo address value).behind u := by
  cases h : b.video.write address value b.requests with
  | mk video requests =>
    have hb : (b.behind u).video.write address value (b.behind u).requests =
        (video.behind u.lines u.buffers?, requests) := by
      have hw := Video.write_behind u.lines u.buffers? b.video address value b.requests
      rw [h] at hw
      exact hw
    have hwritten : { b.behind u with video := video.behind u.lines u.buffers?, requests } =
        behind u { b with video, requests } := rfl
    rw [writeVideo_of_eq h, writeVideo_of_eq hb, hwritten, transferRest_behind]
    change (if b.video.enabled && !video.enabled then _ else _) = _
    split
    · rfl
    split <;> rfl

theorem writeRegion_behind (region : Region) (address : UInt16) (value : UInt8) :
    (b.behind u).writeRegion region address value =
      (b.writeRegion region address value).behind u := by
  have hcgb : (b.behind u).cgb = b.cgb := rfl
  cases region with
  | videoRam =>
    simp only [writeRegion]
    simp only [behind, Video.writeVram_behind]
  | cartridgeRam =>
    simp only [writeRegion]
    simp only [behind, Slot.writeRam_behind]
  | sound =>
    simp only [writeRegion]
    simp only [behind, Sound.write_behind]
  | video => exact writeVideo_behind u b address value
  | speed | bootSwitch | workBank =>
    simp only [writeRegion, hcgb]
    split <;> rfl
  | blockTransfer =>
    simp only [writeRegion, hcgb, writeBlockTransfer_behind]
    split <;> rfl
  | _ => rfl

@[simp] theorem write_behind (address : UInt16) (value : UInt8) :
    (b.behind u).write address value = (b.write address value).behind u := by
  have hbusy : (b.behind u).objectsBusy = b.objectsBusy := rfl
  simp only [write, hbusy, reachable_behind, writeRegion_behind]
  split
  · rfl
  split <;> rfl

/-! ### Cycles -/

theorem advanceVideo_behind (dots : Nat) : ∃ u', u.Leaves u' ∧
    (b.behind u).advanceVideo dots = (b.advanceVideo dots).behind u' := by
  obtain ⟨left?, hleft, hrun⟩ :=
    Video.advance_behind u.lines u.buffers? b.video dots b.requests
  refine ⟨{ u with buffers? := left? }, { Unsaved.Leaves.refl u with buffers := hleft }, ?_⟩
  have hbehind : (b.behind u).video.advance dots (b.behind u).requests =
      (b.video.advance dots b.requests).behind u.lines left? := hrun
  simp only [advanceVideo, hbehind]
  exact repeat_comm (transferNext_behind { u with buffers? := left? }) _ { b with
    video := (b.video.advance dots b.requests).video
    requests := (b.video.advance dots b.requests).flags }

theorem advance_behind (cycles : Nat) : ∃ u', u.Leaves u' ∧
    (b.behind u).advance cycles = ((b.advance cycles).1.behind u', (b.advance cycles).2) := by
  have htimer : (b.behind u).advanceTimer cycles = (b.advanceTimer cycles).behind u := rfl
  have hdots : (b.behind u).dotsIn cycles = b.dotsIn cycles := rfl
  obtain ⟨u', hleaves, hvideo⟩ := advanceVideo_behind u (b.advanceTimer cycles) (b.dotsIn cycles)
  have hsound (b : Bus) (dots : Nat) :
      { b.behind u' with sound := (b.behind u').sound.advance dots } =
        behind u' { b with sound := b.sound.advance dots } := by
    simp only [behind, Sound.advance_behind]
  have hslot (b : Bus) (dots : Nat) : { b.behind u' with slot := (b.behind u').slot.advance dots } =
      behind u' { b with slot := b.slot.advance dots } := by
    simp only [behind, Slot.advance_behind]
  refine ⟨u', hleaves, ?_⟩
  simp only [advance, htimer, hdots, hvideo, hsound, advanceObjects_behind, hslot]

end Bus
end DotMatrix
