import DotMatrix.Proofs.Sound.Snapshot

/-!
# Saving and loading the sound unit

Every unit that has come from power-on by writes and dots can be loaded into another of
the same console and rate. A write to a frequency or to the clock of the noise does not
restart a running timer, which may then lie beyond the new period; loading brings such a
timer down, and only such a timer keeps the section from coming back byte for byte.
-/
namespace DotMatrix.Sound

open Snapshot Snapshot.Layout

/-- The units that come from power-on without a snapshot. -/
inductive Reachable (cgb : Bool) (rate : Nat) : Sound → Prop where
  | off : Reachable cgb rate (off cgb rate)
  | boot {s : Sound} : Reachable cgb rate s → Reachable cgb rate s.boot
  | write {s : Sound} (address : UInt16) (value : UInt8) :
    Reachable cgb rate s → Reachable cgb rate (s.write address value)
  | advance {s : Sound} (dots : Nat) : Reachable cgb rate s → Reachable cgb rate (s.advance dots)
  | takeFrames {s : Sound} : Reachable cgb rate s → Reachable cgb rate s.takeFrames.1

variable {cgb : Bool} {rate : Nat} {s s₀ : Sound}

theorem Reachable.inRange (h : Reachable cgb rate s) : s.InRange := by
  induction h with
  | off => exact inRange_off cgb rate
  | boot _ ih => exact ih.boot
  | write address value _ ih => exact ih.write address value
  | advance dots _ ih => exact ih.advance dots
  | takeFrames _ ih => exact ih.takeFrames

theorem Reachable.paced (h : Reachable cgb rate s) : s.resampler.Paced := by
  induction h with
  | off => exact Resampler.zero_mul_le _ _
  | boot _ ih => rwa [resampler_boot]
  | write address value _ ih => rwa [resampler_write]
  | advance dots hs ih => exact hs.inRange.paced_advance ih dots
  | takeFrames _ ih => exact ih

theorem Reachable.config (h : Reachable cgb rate s) : s.config = (Sound.off cgb rate).config := by
  induction h with
  | off => rfl
  | boot _ ih => rwa [Sound.config, resampler_boot, cgb_boot]
  | write address value _ ih => rwa [Sound.config, resampler_write, cgb_write]
  | advance dots _ ih => rwa [config_advance]
  | takeFrames _ ih => exact ih

/-- Loading what was saved always succeeds and gives the unit back but for its timers,
which are clamped; the bytes come back exactly if no timer had to be. -/
theorem load_write_iff_timersInRange (h : Reachable cgb rate s) (h₀ : Reachable cgb rate s₀) :
    ∃ s', layout.load (layout.write s) s₀ = (s', .ok ()) ∧ s' = s.restored ∧
      (layout.write s' = layout.write s ↔ s.TimersInRange) := by
  have hd := Resampler.InRange.dots_le_of_paced h.inRange.resampler h.paced
  have hc : s₀.config = s.config := h₀.config.trans h.config.symm
  exact ⟨s.restored, (restores_restored h.inRange hd hc).load, rfl, write_restored_iff h.inRange⟩

/-- A tone at the lowest frequency, then moved to the highest while it sounds. -/
def retuned : Sound :=
  [(0xFF26, 0x80), (0xFF12, 0xF0), (0xFF14, 0x80), (0xFF13, 0xFF), (0xFF14, 0x07)].foldl
    (fun s w => s.write w.1 w.2) (off true 44100)

theorem reachable_retuned : Reachable true 44100 retuned :=
  .write 0xFF14 0x07 <| .write 0xFF13 0xFF <| .write 0xFF14 0x80 <| .write 0xFF12 0xF0 <|
    .write 0xFF26 0x80 .off

theorem not_timersInRange_retuned : ¬retuned.TimersInRange :=
  fun h => (by decide : ¬retuned.swept.square.timer ≤ retuned.swept.square.period) h.swept

/-- The section of the retuned tone does not come back. -/
theorem load_retuned : ∃ s', layout.load (layout.write retuned) (off true 44100) = (s', .ok ()) ∧
    layout.write s' ≠ layout.write retuned := by
  obtain ⟨s', hl, _, hw⟩ := load_write_iff_timersInRange reachable_retuned .off
  exact ⟨s', hl, fun he => not_timersInRange_retuned (hw.mp he)⟩

end DotMatrix.Sound
