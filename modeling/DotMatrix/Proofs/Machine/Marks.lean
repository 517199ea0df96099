import DotMatrix.Proofs.Machine.Range

/-!
# Marks of the cartridge

Whatever changes the RAM of the cartridge leaves a mark at its slot, from the write of a
byte to a whole budget of dots. Only writes of the processor reach the RAM: transfers read
the cartridge, and time moves its clock alone.
-/
namespace DotMatrix

namespace Slot

/-- A slot without a mark had none before, and its RAM is what it was. -/
def Marks (s s' : Slot) : Prop := s'.touched = false → s.touched = false ∧ s'.ram = s.ram

variable {s s' s'' : Slot}

theorem Marks.refl (s : Slot) : Marks s s := fun h => ⟨h, rfl⟩

theorem Marks.trans (h : Marks s s') (h' : Marks s' s'') : Marks s s'' := by
  intro ht
  obtain ⟨ht', hr'⟩ := h' ht
  obtain ⟨ht, hr⟩ := h ht'
  exact ⟨ht, hr'.trans hr⟩

theorem marks_setRamByte (s : Slot) (i : Nat) (value : UInt8) : Marks s (s.setRamByte i value) := by
  rw [setRamByte]
  split
  · intro h
    cases h
  · exact .refl s

theorem marks_writeRam (s : Slot) (address : UInt16) (value : UInt8) :
    Marks s (s.writeRam address value) := by
  rw [writeRam]
  split
  · exact .refl s
  · exact marks_setRamByte s _ _
  · exact marks_setRamByte s _ _
  · split
    · intro h
      cases h
    · exact .refl s

theorem marks_advance (dots : Nat) (s : Slot) : Marks s (s.advance dots) := by
  rw [advance]
  split
  · exact fun h => ⟨h, rfl⟩
  · exact .refl s

end Slot

namespace Bus

def Marks (b b' : Bus) : Prop := b.slot.Marks b'.slot

variable {b b' : Bus}

/-- What transfers leave as it is: the cartridge and the sound unit. -/
def bystanders (b : Bus) : Slot × Sound := (b.slot, b.sound)

theorem marks_of_eq (h : b'.bystanders = b.bystanders) : Marks b b' := by
  have hslot : b'.slot = b.slot := congrArg Prod.fst h
  rw [Marks, hslot]
  exact .refl b.slot

/-! ## Transfers and time -/

theorem bystanders_copyBlock (b : Bus) : b.copyBlock.bystanders = b.bystanders := by
  rw [bystanders, (copied_copyBlock b).rest, bystanders]

theorem bystanders_transferNext (b : Bus) : b.transferNext.bystanders = b.bystanders := by
  rw [transferNext_frame]
  rfl

theorem bystanders_transferAll (b : Bus) (blocks : Nat) :
    (b.transferAll blocks).bystanders = b.bystanders :=
  repeat_unchanged (g := bystanders) bystanders_copyBlock blocks b.startWhole

theorem bystanders_transferPaced (b : Bus) (blocks : Nat) :
    (b.transferPaced blocks).bystanders = b.bystanders := by
  rw [transferPaced_eq]
  split
  · exact bystanders_transferNext _
  · rfl

theorem bystanders_controlBlocks (b : Bus) (value : UInt8) :
    (b.controlBlocks value).bystanders = b.bystanders := by
  unfold controlBlocks
  dsimp only
  split
  · exact bystanders_transferPaced b _
  split
  · rfl
  · exact bystanders_transferAll b _

theorem bystanders_writeBlockTransfer (b : Bus) (address : UInt16) (value : UInt8) :
    (b.writeBlockTransfer address value).bystanders = b.bystanders := by
  rw [writeBlockTransfer]
  split
  · exact bystanders_controlBlocks b value
  split
  · rfl
  · rfl

theorem bystanders_advanceObjects (cycles : Nat) (b : Bus) :
    (b.advanceObjects cycles).bystanders = b.bystanders := by
  rw [advanceObjects_frame]
  rfl

theorem bystanders_advanceVideo (dots : Nat) (b : Bus) :
    (b.advanceVideo dots).bystanders = b.bystanders :=
  repeat_unchanged (g := bystanders) bystanders_transferNext _ _

/-- Time moves the clock of the cartridge and the sound unit. -/
theorem bystanders_advance (cycles : Nat) (b : Bus) : (b.advance cycles).1.bystanders =
    (b.slot.advance (b.dotsIn cycles), b.sound.advance (b.dotsIn cycles)) := by
  have hvideo := bystanders_advanceVideo (b.dotsIn cycles) (b.advanceTimer cycles)
  have hobjects := bystanders_advanceObjects cycles
    { (b.advanceTimer cycles).advanceVideo (b.dotsIn cycles) with
      sound := ((b.advanceTimer cycles).advanceVideo (b.dotsIn cycles)).sound.advance
        (b.dotsIn cycles) }
  calc (b.advance cycles).1.bystanders
    _ = _ := congrArg (fun d => (d.1.advance (b.dotsIn cycles), d.2)) hobjects
    _ = _ := congrArg
      (fun d => (d.1.advance (b.dotsIn cycles), d.2.advance (b.dotsIn cycles))) hvideo

/-- Of the cartridge, time moves the clock alone. -/
theorem slot_advance (cycles : Nat) (b : Bus) :
    (b.advance cycles).1.slot = b.slot.advance (b.dotsIn cycles) :=
  congrArg Prod.fst (bystanders_advance cycles b)

theorem marks_advance (cycles : Nat) (b : Bus) : Marks b (b.advance cycles).1 := by
  rw [Marks, slot_advance]
  exact Slot.marks_advance _ b.slot

/-! ## Writes -/

theorem bystanders_writeVideo (b : Bus) (address : UInt16) (value : UInt8) :
    (b.writeVideo address value).bystanders = b.bystanders := by
  rw [writeVideo]
  dsimp only
  split
  · exact repeat_unchanged (g := bystanders) bystanders_transferNext _ _
  split
  · rfl
  · rfl

theorem marks_writeRegion (b : Bus) (region : Region) (address : UInt16) (value : UInt8) :
    Marks b (b.writeRegion region address value) := by
  cases region with
  | cartridgeRam => exact Slot.marks_writeRam b.slot address value
  | video => exact marks_of_eq (bystanders_writeVideo b address value)
  | blockTransfer =>
    simp only [writeRegion]
    split
    · exact marks_of_eq (bystanders_writeBlockTransfer b address value)
    · exact .refl b.slot
  | speed => simp only [writeRegion]; split <;> exact .refl b.slot
  | bootSwitch => simp only [writeRegion]; split <;> exact .refl b.slot
  | workBank => simp only [writeRegion]; split <;> exact .refl b.slot
  | rom => exact fun h => ⟨h, rfl⟩
  | _ => exact .refl b.slot

theorem marks_write (b : Bus) (address : UInt16) (value : UInt8) :
    Marks b (b.write address value) := by
  unfold write
  dsimp only
  split
  · exact .refl b.slot
  split
  · exact marks_writeRegion b _ address value
  · exact .refl b.slot

theorem Effect.marks (h : Effect b b') : Marks b b' := by
  induction h with
  | none b => exact .refl b.slot
  | write b address value => exact marks_write b address value
  | writes b address next value other _ =>
    exact (marks_write b address value).trans (marks_write _ next other)
  | serve b b' kept _ ih => exact ih
  | resetDivider b => exact .refl b.slot
  | switchSpeed b => exact .refl b.slot

end Bus

namespace Machine

variable {m m' : Machine}

/-- A step marks what it writes, also where it fails. -/
theorem marks_step (m : Machine) : m.bus.Marks m.step.1.bus := by
  rw [step]
  split
  · have hstep := (Core.steps_step m.core).effect.marks
    split
    · rename_i core failure hf
      rw [hf] at hstep
      exact hstep
    · rename_i core cycles hok
      rw [hok] at hstep
      exact hstep.trans (Bus.marks_advance cycles core.bus)
  · exact Bus.marks_advance m.bus.stall { m.bus with stall := 0 }

theorem marks_spend (dots : Nat) (m : Machine) : m.bus.Marks (m.spend dots).1.bus := by
  induction dots, m using spend.induct with
  | case1 dots m m' failure hs =>
    have hstep := marks_step m
    rw [hs] at hstep
    rw [spend_of_error hs]
    exact hstep
  | case2 dots m m' elapsed hs hle =>
    have hstep := marks_step m
    rw [hs] at hstep
    rw [spend_of_ok hs, if_pos hle]
    exact hstep
  | case3 dots m m' elapsed hs hgt ih =>
    have hstep := marks_step m
    rw [hs] at hstep
    rw [spend_of_ok hs, if_neg hgt]
    exact hstep.trans ih

theorem marks_runFor (dots : Nat) (m : Machine) : m.bus.Marks (m.runFor dots).1.bus := by
  rw [runFor]
  split
  · exact .refl m.bus.slot
  · exact marks_spend _ m

end Machine

end DotMatrix
